import Mathlib.Data.List.Nodup
import Mathlib.Data.String.Basic
import StableWheel.Proofs.FileSystem.Below
import StableWheel.Proofs.FileSystem.Tree

/-! File systems that are listed tidily.

Nothing is listed twice, and whatever is listed can be named (`Tidy`). Work on files keeps it so,
since paths lead to places with names only (`Walk.named`). What is listed in a directory is then a
matter of what can be looked up there (`names_eq`). -/
namespace StableWheel

/-- A place with names as file systems have them. -/
def Named (names : Location) : Prop := ∀ name ∈ names, Nameable name

instance : DecidablePred Named := fun names =>
  inferInstanceAs (Decidable (∀ name ∈ names, Nameable name))

namespace FileSystem

theorem named_concat {place : Location} {name : String} (h : Named place) (hname : Nameable name) :
    Named (place ++ [name]) := by
  intro other hother
  rcases List.mem_append.mp hother with hmem | hlast
  · exact h other hmem
  · rwa [List.mem_singleton.mp hlast]

theorem named_origin {place : Location} (h : Named place) (p : Path) : Named (origin place p) := by
  unfold origin
  split
  · exact fun name hname => absurd hname List.not_mem_nil
  · exact h

variable {fs : FileSystem} {ending : Ending}

theorem Walk.named {links : Nat} {start found : Location} {steps : List Step}
    (hw : Walk fs ending links start steps found) (hs : Named start)
    (hsteps : ∀ name, Step.enter name ∈ steps → Nameable name) : Named found := by
  have hrest : ∀ {step rest}, (∀ name, Step.enter name ∈ step :: rest → Nameable name) →
      ∀ name, Step.enter name ∈ rest → Nameable name :=
    fun hall name hname => hall name (List.mem_cons_of_mem _ hname)
  induction hw with
  | here => exact hs
  | stay _ ih => exact ih hs (hrest hsteps)
  | inside _ ih => exact ih hs (hrest hsteps)
  | up _ ih => exact ih (fun name hname => hs name (List.dropLast_subset _ hname)) (hrest hsteps)
  | directory _ _ _ ih =>
    exact ih (named_concat hs (hsteps _ (List.mem_cons_self ..))) (hrest hsteps)
  | nothing _ _ => exact named_concat hs (hsteps _ (List.mem_cons_self ..))
  | file _ _ => exact named_concat hs (hsteps _ (List.mem_cons_self ..))
  | kept _ _ _ => exact named_concat hs (hsteps _ (List.mem_cons_self ..))
  | followed _ _ _ _ ih =>
    refine ih (named_origin hs _) fun name hname => ?_
    rcases List.mem_append.mp hname with htarget | hmore
    · exact Step.nameable_of_enter htarget
    · exact hrest hsteps name hmore

/-! ### Tidy lists -/

/-- Nothing is listed twice, and everything can be named. -/
structure Tidy (fs : FileSystem) : Prop where
  once : (fs.entries.map Prod.fst).Nodup
  named : ∀ e ∈ fs.entries, Named e.1
  working : Named fs.workingDirectory

theorem Tidy.lookup_named (h : Tidy fs) {place : Location} {n : Entry}
    (hl : fs.lookup place = some n) : Named place := by
  rw [lookup] at hl
  split at hl
  · next hroot => exact fun name hname => by rw [hroot] at hname; cases hname
  · obtain ⟨before, after, heq, -⟩ := List.lookup_eq_some_iff.mp hl
    exact h.named (place, n) (by rw [heq]; simp)

theorem Tidy.put (h : Tidy fs) {place : Location} (hplace : Named place) (n : Entry) :
    Tidy (fs.put place n) := by
  refine ⟨List.nodup_cons.mpr ⟨fun hmem => ?_, h.once.sublist (List.filter_sublist.map Prod.fst)⟩,
    fun e he => ?_, h.working⟩
  · obtain ⟨e, he, heq⟩ := List.mem_map.mp hmem
    have hother := (List.mem_filter.mp he).2
    simp [heq] at hother
  · rcases List.mem_cons.mp he with rfl | hold
    · exact hplace
    · exact h.named e (List.mem_filter.mp hold).1

theorem Tidy.resolve (h : Tidy fs) {p : Path} {place : Location}
    (hr : fs.resolve p ending = .ok place) : Named place :=
  (resolve_iff.mp hr).2.named (named_origin h.working p) fun _ => Step.nameable_of_enter

theorem createDirectories_tidy (fs : FileSystem) (p : Path) (h : Tidy fs) :
    Tidy (fs.createDirectories p).2 := by
  refine createDirectories_moves (R := fun before after => Tidy before → Tidy after)
    ⟨fun _ h => h, fun h h' ht => h' (h ht)⟩ (fun fs p ht => ?_) fs p h
  rcases createDirectory_cases fs p with hsame | ⟨place, hw, -, hput⟩
  · rwa [hsame]
  · rw [hput]
    refine ht.put (hw.named (named_origin ht.working p) fun name hname => ?_) .directory
    exact Step.nameable_of_enter (List.mem_append_left _ hname)

/-! ### Names in a directory -/

/-- The name of a place that is right below another one. -/
def nameBelow (place other : Location) : Option String :=
  match place.isPrefixOf? other with
  | some [name] => some name
  | _ => none

theorem nameBelow_iff {place other : Location} {name : String} :
    nameBelow place other = some name ↔ other = place ++ [name] := by
  unfold nameBelow
  constructor
  · intro h
    split at h
    · next names hnames =>
      cases h
      exact (List.isPrefixOf?_eq_some_iff_append_eq.mp hnames).symm
    · cases h
  · intro h
    rw [List.isPrefixOf?_eq_some_iff_append_eq.mpr h.symm]

theorem names_perm (fs : FileSystem) (place : Location) :
    (fs.names place).Perm ((fs.entries.map Prod.fst).filterMap (nameBelow place)) := by
  rw [List.filterMap_map]
  exact List.mergeSort_perm _ _

/-- Names that are listed in rising order are read in that order. -/
theorem names_of_rising {place : Location} {names : List String}
    (h : (fs.entries.map Prod.fst).filterMap (nameBelow place) = names)
    (hrising : names.Pairwise (· ≤ ·)) : fs.names place = names := by
  subst h
  rw [List.filterMap_map] at hrising ⊢
  exact List.mergeSort_of_pairwise (hrising.imp decide_eq_true)

theorem mem_names {place : Location} {name : String} :
    name ∈ fs.names place ↔ fs.lookup (place ++ [name]) ≠ none := by
  rw [(names_perm fs place).mem_iff, List.mem_filterMap, lookup, if_neg (by simp), ne_eq,
    List.lookup_eq_none_iff]
  simp only [nameBelow_iff, List.mem_map]
  constructor
  · rintro ⟨-, ⟨e, he, rfl⟩, heq⟩ hnone
    simpa [heq] using hnone e he
  · intro hsome
    by_contra hnone
    refine hsome fun e he => ?_
    simpa using fun heq => hnone ⟨e.1, ⟨e, he, rfl⟩, heq.symm⟩

/-- Whatever is read from a directory can be named. -/
theorem Tidy.readDirectory (h : Tidy fs) {p : Path} {names : List String}
    (hread : fs.readDirectory p = .ok names) : ∀ name ∈ names, Nameable name := by
  intro name hname
  unfold FileSystem.readDirectory at hread
  rcases hfound : fs.find p .followed with e | ⟨place, f | _ | target⟩ <;> rw [hfound] at hread <;>
    cases hread
  obtain ⟨n, hn⟩ := Option.ne_none_iff_exists'.mp (mem_names.mp hname)
  exact h.lookup_named hn name (by simp)

theorem Tidy.nodup_names (h : Tidy fs) (place : Location) : (fs.names place).Nodup := by
  rw [(names_perm fs place).nodup_iff]
  refine List.Nodup.filterMap (fun other other' name hname hname' => ?_) h.once
  rw [nameBelow_iff.mp hname, nameBelow_iff.mp hname']

/-- Directories that hold the same are listed alike. -/
theorem names_eq {a b : FileSystem} (ha : Tidy a) (hb : Tidy b) {place : Location}
    (hsame : ∀ name, a.lookup (place ++ [name]) = none ↔ b.lookup (place ++ [name]) = none) :
    a.names place = b.names place := by
  have hsorted : ∀ fs : FileSystem, (fs.names place).Pairwise (· ≤ ·) := by
    intro fs
    refine (List.pairwise_mergeSort (fun _ _ _ h h' => ?_) (fun a b => ?_) _).imp of_decide_eq_true
    · exact decide_eq_true (le_trans (of_decide_eq_true h) (of_decide_eq_true h'))
    · simpa using le_total a b
  refine List.Perm.eq_of_pairwise (fun _ _ _ _ hle hge => le_antisymm hle hge) (hsorted a)
    (hsorted b) ((List.perm_ext_iff_of_nodup (ha.nodup_names place)
      (hb.nodup_names place)).mpr fun name => ?_)
  rw [mem_names, mem_names, ne_eq, ne_eq, hsame]

end FileSystem
end StableWheel
