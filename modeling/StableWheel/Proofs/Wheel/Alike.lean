import Mathlib.Data.List.Perm.Basic
import StableWheel.Proofs.FileSystem.Naming
import StableWheel.Proofs.Wheel.Contents

/-! When two wheels are alike.

What is staged into a wheel is a function of the files of a tree (`Gathered`): one member for each
file, in the order of the names that lead there. Wheels of the same project are alike exactly when
their trees hold the same files (`Gathered.eq`, `Gathered.counterpart`). -/
namespace StableWheel
open FileSystem

/-! ### Names -/

theorem join_of_named {first : String} {rest : Location} (h : Named (first :: rest)) :
    Text.pieces '/' (Text.join "/" (first :: rest)) = first :: rest :=
  Text.pieces_join fun part hpart => (h part hpart).2.2.2

theorem join_ne_empty {first : String} {rest : Location} (h : Named (first :: rest)) :
    Text.join "/" (first :: rest) ≠ "" := by
  intro hempty
  have hpieces := join_of_named h
  rw [hempty] at hpieces
  exact (h first (List.mem_cons_self ..)).1 (List.cons.inj hpieces).1.symm

/-- Names can be told from the name of a member. -/
theorem Named.eq_of_join {names names' : Location} (h : Named names) (h' : Named names')
    (heq : Text.join "/" names = Text.join "/" names') : names = names' := by
  cases names with
  | nil =>
    cases names' with
    | nil => rfl
    | cons first' rest' => exact absurd heq.symm (join_ne_empty h')
  | cons first rest =>
    cases names' with
    | nil => exact absurd heq (join_ne_empty h)
    | cons first' rest' => rw [← join_of_named h, heq, join_of_named h']

theorem eq_of_isLE {names names' : Location} (h : (compare names names').isLE)
    (h' : (compare names' names).isLE) : names = names' :=
  Std.LawfulEqCmp.eq_of_compare (Std.OrientedCmp.isLE_antisymm h h')

/-! ### Members of a tree -/

/-- The member for the file that names lead to from a tree. -/
def memberAt (fs : FileSystem) (tree names : Location) : Archive.Member :=
  wheelMember (Text.join "/" names) ((fs.bytesAt (tree ++ names)).getD ByteArray.empty)

theorem filesBelow_rising (fs : FileSystem) (tree : Location) :
    (fs.filesBelow tree).Pairwise fun a b => (compare a b).isLE := by
  refine List.pairwise_mergeSort (fun _ _ _ => Std.TransCmp.isLE_trans) (fun a b => ?_) _
  have hswap : compare b a = (compare a b).swap := Std.OrientedCmp.eq_swap
  rw [hswap]
  cases compare a b <;> rfl

/-- Members for all files of a tree and no others, in rising order of the names that lead there. -/
structure Gathered (fs : FileSystem) (tree : Location) (list : List Location)
    (staged : List Archive.Member) : Prop where
  rising : list.Pairwise fun a b => (compare a b).isLE
  once : (list.map (Text.join "/")).Nodup
  all : ∀ names, names ∈ list ↔ (fs.bytesAt (tree ++ names)).isSome
  staged : staged = list.map (memberAt fs tree)

/-- Files that are packed while nothing below the tree changes are gathered. -/
theorem gathered_of_taken {fs : FileSystem} {but tree : Location} {staged : List Archive.Member}
    (h : List.Forall₂ (Taken fs but tree) (fs.filesBelow tree) staged)
    (hnodup : (staged.map (·.name)).Nodup) (hapart : ¬ tree <+: but) :
    Gathered fs tree (fs.filesBelow tree) staged := by
  have hcontent : ∀ {names m}, Taken fs but tree names m →
      fs.bytesAt (tree ++ names) = some m.content :=
    fun hm => hm.content fun heq => hapart ⟨_, heq⟩
  refine ⟨filesBelow_rising fs tree, by rwa [← taken_names h],
    fun names => ⟨fun hmem => ?_, fun hsome => ?_⟩, ?_⟩
  · obtain ⟨m, -, hm⟩ := exists_beside h hmem
    rw [hcontent hm]
    rfl
  · obtain ⟨bytes, hbytes⟩ := Option.isSome_iff_exists.mp hsome
    exact mem_filesBelow hbytes
  · have hmembers : List.Forall₂ (fun names m => memberAt fs tree names = m) (fs.filesBelow tree)
        staged := by
      refine h.imp fun names m hm => ?_
      rw [memberAt, hcontent hm, Option.getD_some, hm.made, hm.name]
      rfl
    rw [← List.forall₂_map_left_iff, List.forall₂_eq_eq_eq] at hmembers
    exact hmembers.symm

section
variable {a b : FileSystem} {tree : Location} {list list' : List Location}
  {staged staged' : List Archive.Member}

theorem Gathered.congr (h : Gathered a tree list staged)
    (hsame : ∀ names, a.bytesAt (tree ++ names) = b.bytesAt (tree ++ names)) :
    Gathered b tree list staged where
  rising := h.rising
  once := h.once
  all names := by rw [h.all, hsame]
  staged := by
    rw [h.staged]
    exact List.map_congr_left fun names _ => by rw [memberAt, memberAt, hsame]

theorem Gathered.unique (h : Gathered a tree list staged) (h' : Gathered a tree list' staged') :
    staged = staged' := by
  have hmem : ∀ names, names ∈ list ↔ names ∈ list' := fun names => by rw [h.all, h'.all]
  have hperm : list.Perm list' := (List.perm_ext_iff_of_nodup (List.Nodup.of_map _ h.once)
    (List.Nodup.of_map _ h'.once)).mpr hmem
  have hlist : list = list' := hperm.eq_of_pairwise
    (fun _ _ _ _ hle hge => eq_of_isLE hle hge) h.rising h'.rising
  rw [h.staged, h'.staged, hlist]

/-- Trees with the same files are staged alike. -/
theorem Gathered.eq (h : Gathered a tree list staged) (h' : Gathered b tree list' staged')
    (hsame : ∀ names, a.bytesAt (tree ++ names) = b.bytesAt (tree ++ names)) : staged = staged' :=
  (h.congr hsame).unique h'

/-- What is staged from one tree is in the other one by names that come to the same. -/
theorem Gathered.counterpart (h : Gathered a tree list staged) (h' : Gathered b tree list' staged)
    {names : Location} {bytes : ByteArray} (hbytes : a.bytesAt (tree ++ names) = some bytes) :
    ∃ names', Text.join "/" names' = Text.join "/" names ∧
      b.bytesAt (tree ++ names') = some bytes := by
  have hmem : memberAt a tree names ∈ staged := by
    rw [h.staged]
    exact List.mem_map_of_mem ((h.all names).mpr (by rw [hbytes]; rfl))
  rw [h'.staged] at hmem
  obtain ⟨names', hnames', heq⟩ := List.mem_map.mp hmem
  obtain ⟨bytes', hbytes'⟩ := Option.isSome_iff_exists.mp ((h'.all names').mp hnames')
  rw [memberAt, memberAt, hbytes, hbytes', Option.getD_some, Option.getD_some] at heq
  refine ⟨names', congrArg Archive.Member.name heq, ?_⟩
  have hcontent : bytes' = bytes := congrArg Archive.Member.content heq
  rw [hbytes', hcontent]

/-- No two files of a tree are staged by one name. -/
theorem Gathered.eq_of_join (h : Gathered a tree list staged) {names names' : Location}
    (hnames : (a.bytesAt (tree ++ names)).isSome) (hnames' : (a.bytesAt (tree ++ names')).isSome)
    (heq : Text.join "/" names = Text.join "/" names') : names = names' :=
  List.inj_on_of_nodup_map h.once ((h.all names).mpr hnames) ((h.all names').mpr hnames') heq

end

/-- The members of a wheel: what is staged, with the files that describe it. -/
def Wheel.described (w : Wheel) (staged : List Archive.Member) : List Archive.Member :=
  staged ++ w.description ++ [w.listing (staged ++ w.description)]

/-- Wheels that are described alike hold the same exactly if the same is staged. -/
theorem Wheel.described_inj (w : Wheel) {staged staged' : List Archive.Member} :
    w.described staged = w.described staged' ↔ staged = staged' := by
  refine ⟨fun h => ?_, fun h => by rw [h]⟩
  exact List.append_cancel_right (List.append_inj_left' h (by simp))

end StableWheel
