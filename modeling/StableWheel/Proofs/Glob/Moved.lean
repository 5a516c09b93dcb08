import Mathlib.Data.List.Forall2
import StableWheel.Proofs.Glob.Descent

/-! Searches from two places where the same is to be seen.

A search only asks what is to be seen at the paths it comes to. Two searches for the same components
that start where the same is to be seen stay side by side (`expand_twins`, `collect_twins`): they
come to paths with the same parts behind the two starts, in the same order. How deep a search may
still go does not matter, if it is deep enough for the paths that there can be. -/
namespace StableWheel.Glob
open FileSystem

theorem searched_directories : Searched [.directories] := ⟨by simp [Whole], by simp⟩

/-- From two starts the same is to be seen. -/
structure Alike (a b : FileSystem) (s t : Path) : Prop where
  absolute : s.isAbsolute = true ∧ t.isAbsolute = true
  trees : a.IsTree ∧ b.IsTree
  tidy : a.Tidy
  sight : ∀ parts, (∀ part ∈ parts, PathPart part) →
    sight a (s.extend parts) = sight b (t.extend parts)

/-- The same is left to look at behind the two starts, and the two searches may go down deep enough
for it: an entry takes a step for each of its components, and a step for each further character that
its path may have. -/
inductive Twins (a b : FileSystem) (s t : Path) (n m : Nat) : Pending → Pending → Prop where
  | found {parts} : (∀ part ∈ parts, PathPart part) → 0 < n → 0 < m →
      Twins a b s t n m (.found (reach a (s.extend parts))) (.found (reach b (t.extend parts)))
  | entry {parts name components} : (∀ part ∈ parts, PathPart part) → Nameable name →
      (∀ component ∈ components, Searched component) →
      pathLimit + 1 - ((s.extend parts).join ⟨name⟩).text.utf8ByteSize + components.length < n →
      pathLimit + 1 - ((t.extend parts).join ⟨name⟩).text.utf8ByteSize + components.length < m →
      Twins a b s t n m (.entry (reach a ((s.extend parts).join ⟨name⟩)) components)
        (.entry (reach b ((t.extend parts).join ⟨name⟩)) components)

/-- Paths with the same parts behind the two starts. -/
def Fellows (s t : Path) (x y : Except (Path × FileError) Path) : Prop :=
  ∃ parts, (∀ part ∈ parts, PathPart part) ∧ x = .ok (s.extend parts) ∧ y = .ok (t.extend parts)

variable {a b : FileSystem} {s t : Path} {n m : Nat} {parts : List String} {name : String}
  {components : List (List Token)}

theorem part_concat (hparts : ∀ part ∈ parts, PathPart part) (hname : PathPart name) :
    ∀ part ∈ parts ++ [name], PathPart part := by
  intro part hpart
  rcases List.mem_append.mp hpart with hpart | hpart
  · exact hparts part hpart
  · rwa [List.mem_singleton.mp hpart]

/-- A path is longer than the one it is below. -/
theorem size_join {p : Path} (hp : p.isAbsolute = true) (hname : PathPart name) :
    p.text.utf8ByteSize ≤ (p.join ⟨name⟩).text.utf8ByteSize ∧
      (name ≠ "" → p.text.utf8ByteSize < (p.join ⟨name⟩).text.utf8ByteSize) := by
  rw [Path.text_join hp hname.noSeparator]
  simp only [String.utf8ByteSize_append]
  refine ⟨by omega, fun hne => ?_⟩
  have hpos : name.utf8ByteSize ≠ 0 := by simpa using hne
  omega

/-- What is found needs no depth, and what goes on with components needs what they need. -/
theorem following_twins_of {rest : List (List Token)}
    (hexpand : List.Forall₂ (Twins a b s t n m) (expand a rest (reach a (s.extend parts)))
      (expand b rest (reach b (t.extend parts))))
    (hparts : ∀ part ∈ parts, PathPart part) (hn : 0 < n) (hm : 0 < m) :
    List.Forall₂ (Twins a b s t n m) (following a rest (s.extend parts))
      (following b rest (t.extend parts)) := by
  unfold following
  split
  · exact .cons (.found hparts hn hm) .nil
  · exact hexpand

theorem forall₂_if {α β : Type} {R : α → β → Prop} {c : Bool} {xs : List α} {ys : List β}
    (h : c = true → List.Forall₂ R xs ys) :
    List.Forall₂ R (if c then xs else []) (if c then ys else []) := by
  cases c with
  | false => exact .nil
  | true => exact h rfl

/-- What starts with a component for directories gets shorter without these. -/
theorem length_dropDirectories (h : (components.head?.map isDirectories).getD false = true) :
    (dropDirectories components).length < components.length := by
  cases components with
  | nil => cases h
  | cons component rest =>
    have hdrop : dropDirectories (component :: rest) = dropDirectories rest :=
      List.dropWhile_cons_of_pos h
    rw [hdrop, List.length_cons]
    exact Nat.lt_succ_of_le (List.length_dropWhile_le _ _)

theorem size_of_isDirectory {fs : FileSystem} {p : Path} (h : fs.isDirectory p = true) :
    p.text.utf8ByteSize ≤ pathLimit := (checkPath_iff.mp (checkPath_of_isDirectory h)).2.2

section
variable (h : Alike a b s t)
include h

theorem Alike.directory (hparts : ∀ part ∈ parts, PathPart part) :
    a.isDirectory (s.extend parts) = b.isDirectory (t.extend parts) := by
  rw [isDirectory_eq, isDirectory_eq, h.sight parts hparts]

theorem Alike.present (hparts : ∀ part ∈ parts, PathPart part) :
    ((a.status (s.extend parts)).isOk || a.exists? (s.extend parts)) =
      ((b.status (t.extend parts)).isOk || b.exists? (t.extend parts)) := by
  have hsame := h.sight parts hparts
  have hfile : a.isFile (s.extend parts) = b.isFile (t.extend parts) := congrArg Sight.file hsame
  have hpresent : a.exists? (s.extend parts) = b.exists? (t.extend parts) :=
    congrArg Sight.present hsame
  rw [status_isOk h.trees.1, status_isOk h.trees.2, hfile, hpresent, h.directory hparts]

/-- Both directories are read, and the same names are in them. -/
theorem Alike.listing (hparts : ∀ part ∈ parts, PathPart part)
    (hd : a.isDirectory (s.extend parts) = true) :
    ∃ names, a.readDirectory (s.extend parts) = .ok names ∧
      b.readDirectory (t.extend parts) = .ok names ∧ ∀ name ∈ names, Nameable name := by
  rw [isDirectory_eq, Option.isSome_iff_exists] at hd
  obtain ⟨names, hnames⟩ := hd
  have hread := readDirectory_of_listing hnames
  rw [h.sight parts hparts] at hnames
  exact ⟨names, hread, readDirectory_of_listing hnames, h.tidy.readDirectory hread⟩

/-! ### What is left to look at -/

/-- The induction is on the components: a name that is looked up is there on both sides or on none,
and a component that is compared meets the same names. -/
theorem expand_twins (hparts : ∀ part ∈ parts, PathPart part)
    (hcomponents : ∀ component ∈ components, Searched component)
    (hn : pathLimit - (s.extend parts).text.utf8ByteSize + components.length < n)
    (hm : pathLimit - (t.extend parts).text.utf8ByteSize + components.length < m) :
    List.Forall₂ (Twins a b s t n m) (expand a components (reach a (s.extend parts)))
      (expand b components (reach b (t.extend parts))) := by
  induction components generalizing parts with
  | nil => exact .nil
  | cons component rest ih =>
    rw [List.length_cons] at hn hm
    have hsearched := hcomponents component (List.mem_cons_self ..)
    have hleft := Path.isAbsolute_extend h.absolute.1 parts
    have hright := Path.isAbsolute_extend h.absolute.2 parts
    cases hliteral : literal? component with
    | some cs =>
      have hpart := hsearched.part hliteral
      have hnext := part_concat hparts hpart
      have hpresent := h.present hnext
      have hsize := (size_join hleft hpart).1
      have hsize' := (size_join hright hpart).1
      rw [expand_literal hleft hsearched hliteral, expand_literal hright hsearched hliteral]
      simp only [Path.extend_concat] at hpresent
      rw [hpresent]
      split
      · have hmore := ih hnext (fun c hc => hcomponents c (List.mem_cons_of_mem _ hc))
          (by rw [Path.extend_concat]; omega) (by rw [Path.extend_concat]; omega)
        have hfollowing := following_twins_of hmore hnext (by omega) (by omega)
        rwa [Path.extend_concat, Path.extend_concat] at hfollowing
      · exact .nil
    | none =>
      cases hd : a.isDirectory (s.extend parts) with
      | false =>
        have hd' := (h.directory hparts).symm.trans hd
        rw [expand_nowhere hd hliteral, expand_nowhere hd' hliteral]
        exact .nil
      | true =>
        have hd' := (h.directory hparts).symm.trans hd
        obtain ⟨names, hread, hread', hnames⟩ := h.listing hparts hd
        rw [expand_names hleft hd hsearched hliteral hread,
          expand_names hright hd' hsearched hliteral hread', List.forall₂_map_left_iff,
          List.forall₂_map_right_iff, List.forall₂_same]
        intro name hname
        have hnameable := hnames name hname
        have hsize := (size_join hleft (.inr hnameable)).2 hnameable.1
        have hsize' := (size_join hright (.inr hnameable)).2 hnameable.1
        refine .entry hparts hnameable hcomponents ?_ ?_ <;> rw [List.length_cons] <;> omega

theorem following_twins (hparts : ∀ part ∈ parts, PathPart part)
    (hcomponents : ∀ component ∈ components, Searched component)
    (hn : pathLimit - (s.extend parts).text.utf8ByteSize + components.length < n)
    (hm : pathLimit - (t.extend parts).text.utf8ByteSize + components.length < m) :
    List.Forall₂ (Twins a b s t n m) (following a components (s.extend parts))
      (following b components (t.extend parts)) :=
  following_twins_of (expand_twins h hparts hcomponents hn hm) hparts (by omega) (by omega)

/-! ### What is found -/

theorem fellows_result (hparts : ∀ part ∈ parts, PathPart part) (wantsDirectory : Bool) :
    List.Forall₂ (Fellows s t) ((reach a (s.extend parts)).result wantsDirectory)
      ((reach b (t.extend parts)).result wantsDirectory) := by
  have hsame : (reach a (s.extend parts)).directory = (reach b (t.extend parts)).directory :=
    h.directory hparts
  have hresult (r : Reached) : r.result wantsDirectory =
      if !(wantsDirectory && !r.directory) then [.ok r.path] else [] := by
    rw [Reached.result]
    cases wantsDirectory && !r.directory <;> rfl
  rw [hresult, hresult, hsame]
  exact forall₂_if fun _ => .cons ⟨parts, hparts, rfl, rfl⟩ .nil

theorem compare_twins (wantsDirectory : Bool) (hparts : ∀ part ∈ parts, PathPart part)
    (hname : Nameable name) (hcomponents : ∀ component ∈ components, Searched component)
    (hn : pathLimit + 1 - ((s.extend parts).join ⟨name⟩).text.utf8ByteSize + components.length ≤ n)
    (hm : pathLimit + 1 - ((t.extend parts).join ⟨name⟩).text.utf8ByteSize + components.length ≤ m)
    (hdeeper : ∀ {xs ys}, List.Forall₂ (Twins a b s t n m) xs ys →
      List.Forall₂ (Fellows s t) (xs.flatMap (collect a wantsDirectory n))
        (ys.flatMap (collect b wantsDirectory m))) :
    List.Forall₂ (Fellows s t)
      (compare a wantsDirectory (collect a wantsDirectory n)
        (reach a ((s.extend parts).join ⟨name⟩)) components)
      (compare b wantsDirectory (collect b wantsDirectory m)
        (reach b ((t.extend parts).join ⟨name⟩)) components) := by
  cases components with
  | nil => exact .nil
  | cons component rest =>
    rw [List.length_cons] at hn hm
    rw [compare_entry (Path.isAbsolute_extend h.absolute.1 parts) hname _ (by omega),
      compare_entry (Path.isAbsolute_extend h.absolute.2 parts) hname _ (by omega)]
    split
    · have hfollowing := following_twins h (part_concat hparts (.inr hname))
        (fun c hc => hcomponents c (List.mem_cons_of_mem _ hc))
        (n := n) (m := m) (by rw [Path.extend_concat]; omega) (by rw [Path.extend_concat]; omega)
      rw [Path.extend_concat, Path.extend_concat] at hfollowing
      exact hdeeper hfollowing
    · exact .nil

/-- The induction is on how deep the one search may go; the other one is at a twin all the time. -/
theorem collect_twins (wantsDirectory : Bool) {x y : Pending} (hxy : Twins a b s t n m x y) :
    List.Forall₂ (Fellows s t) (collect a wantsDirectory n x) (collect b wantsDirectory m y) := by
  induction n generalizing m x y with
  | zero => cases hxy <;> omega
  | succ n ih =>
    obtain ⟨m, rfl⟩ : ∃ m', m = m' + 1 := Nat.exists_eq_succ_of_ne_zero (by cases hxy <;> omega)
    have hdeeper : ∀ {xs ys}, List.Forall₂ (Twins a b s t n m) xs ys →
        List.Forall₂ (Fellows s t) (xs.flatMap (collect a wantsDirectory n))
          (ys.flatMap (collect b wantsDirectory m)) :=
      fun hpending => List.rel_flatMap hpending fun _ _ hchild => ih hchild
    cases hxy with
    | found hparts _ _ =>
      rw [collect, collect]
      exact fellows_result h hparts wantsDirectory
    | @entry parts name components hparts hname hcomponents hn hm =>
      have hbehind := part_concat hparts (.inr hname)
      have hsame := h.directory hbehind
      rw [Path.extend_concat, Path.extend_concat] at hsame
      rw [collect, collect]
      dsimp only
      split
      · next hdirectories =>
        -- at least one component stands for directories
        have hfewer := length_dropDirectories hdirectories
        have hrest : ∀ component ∈ dropDirectories components, Searched component :=
          fun c hc => hcomponents c ((List.dropWhile_suffix _).subset hc)
        refine List.rel_append ?_ ?_
        · split
          · simp only [reach, hsame]
            refine forall₂_if fun _ => .cons ⟨parts ++ [name], hbehind, ?_, ?_⟩ .nil
            · rw [Path.extend_concat]
            · rw [Path.extend_concat]
          · exact compare_twins h wantsDirectory hparts hname hrest (by omega) (by omega) hdeeper
        · have hdirectory : (reach a ((s.extend parts).join ⟨name⟩)).directory =
              (reach b ((t.extend parts).join ⟨name⟩)).directory := hsame
          rw [hdirectory]
          refine forall₂_if fun hd => hdeeper ?_
          have hsize := size_of_isDirectory (hsame.trans hd)
          have hsize' := size_of_isDirectory hd
          have hmore := expand_twins (n := n) (m := m) h hbehind
            (List.forall_mem_cons.mpr ⟨searched_directories, hrest⟩)
            (by rw [Path.extend_concat, List.length_cons]; omega)
            (by rw [Path.extend_concat, List.length_cons]; omega)
          rwa [Path.extend_concat, Path.extend_concat] at hmore
      · exact compare_twins h wantsDirectory hparts hname hcomponents (by omega) (by omega) hdeeper

end

/-! ### Two directories -/

variable {d e : Path}

/-- Where the same is below two directories, the same is to be seen from where the searches start. -/
theorem alike_start (hsame : SameBelow a b d e) (hta : a.IsTree) (htb : b.IsTree) (htidy : a.Tidy)
    (hreada : Readable a d) (hreadb : Readable b e) (hd : d.isAbsolute = true)
    (he : e.isAbsolute = true) : Alike a b (startOf d) (startOf e) where
  absolute := ⟨(shorter_start hd).absolute.1, (shorter_start he).absolute.1⟩
  trees := ⟨hta, htb⟩
  tidy := htidy
  sight _ hparts := hsame.seen hta htb hreada hreadb (shorter_start hd) (shorter_start he) hparts

/-- The same is found below both, in the same order. -/
theorem run_fellows (halike : Alike a b (startOf d) (startOf e)) (htidy : b.Tidy)
    (hd : a.isDirectory d = true) (he : b.isDirectory e = true) (hda : d.isAbsolute = true)
    (hea : e.isAbsolute = true) {rest : List (List Token)}
    (hrest : ∀ component ∈ rest, Searched component) (wantsDirectory : Bool) :
    List.Forall₂ (Fellows (startOf d) (startOf e))
      (Query.run ⟨⟨"/"⟩, (piecesOf d).map literally ++ rest, wantsDirectory⟩ a)
      (Query.run ⟨⟨"/"⟩, (piecesOf e).map literally ++ rest, wantsDirectory⟩ b) := by
  obtain ⟨n, hn, hrun⟩ := run_from_start halike.trees.1 halike.tidy hd hda rest wantsDirectory
  obtain ⟨m, hm, hrun'⟩ := run_from_start halike.trees.2 htidy he hea rest wantsDirectory
  have hsize {p : Path} (hp : p.isAbsolute = true) : 0 < p.text.utf8ByteSize := by
    have hfilled := Path.isEmpty_of_absolute hp
    rw [Path.isEmpty, String.isEmpty_eq_false_iff] at hfilled
    exact Nat.pos_of_ne_zero (by simpa using hfilled)
  have hs : 0 < ((startOf d).extend []).text.utf8ByteSize := hsize halike.absolute.1
  have ht : 0 < ((startOf e).extend []).text.utf8ByteSize := hsize halike.absolute.2
  have hlimit : 0 < pathLimit := by decide
  have hfollowing : List.Forall₂ (Twins a b (startOf d) (startOf e) n m)
      (following a rest (startOf d)) (following b rest (startOf e)) :=
    following_twins halike (fun _ hpart => absurd hpart List.not_mem_nil) hrest
      (by omega) (by omega)
  rw [hrun, hrun']
  exact List.rel_flatMap hfollowing fun _ _ hxy => collect_twins halike wantsDirectory hxy

end StableWheel.Glob
