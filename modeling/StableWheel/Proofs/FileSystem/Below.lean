import Mathlib.Data.List.Basic
import StableWheel.Proofs.FileSystem.Heading
import StableWheel.Proofs.Text.Pieces

/-! Paths that are put together below a directory.

The names that steps enter are names as file systems have them (`Nameable`). A path that is joined
to another one goes on from it by its own steps, unless it is absolute (`Continues`). Below a
directory without links these steps decide where the whole path heads: as long as they do not climb
out, it is inside (`Continues.inside`). -/
namespace StableWheel

/-! ### The steps of a path -/

/-- A name as file systems have them: not empty, no dots that stand for a directory, and without
separators. -/
def Nameable (name : String) : Prop :=
  name ≠ "" ∧ name ≠ "." ∧ name ≠ ".." ∧ '/' ∉ name.toList

instance : DecidablePred Nameable := fun _ => inferInstanceAs (Decidable (_ ∧ _))

theorem Nameable.isAbsolute {name : String} (h : Nameable name) :
    (Path.mk name).isAbsolute = false := by
  have hfirst : name.toList.head? ≠ some '/' :=
    fun hhead => h.2.2.2 (List.mem_of_mem_head? hhead)
  simpa [Path.isAbsolute] using hfirst

namespace Step

theorem named_cut (before after : List Char) :
    named ⟨String.ofList (before ++ '/' :: after)⟩ =
      named ⟨String.ofList before⟩ ++ named ⟨String.ofList after⟩ := by
  simp [named, List.splitOn_append_cons_self]

theorem named_empty : named ⟨""⟩ = [] := by rfl

theorem named_join {p q : Path} (h : q.isAbsolute = false) :
    named (p.join q) = named p ++ named q := by
  unfold Path.join
  rw [h, Bool.false_or]
  split
  · next hempty =>
    have hp : p = ⟨""⟩ := congrArg Path.mk (by simpa [Path.isEmpty] using hempty)
    rw [hp, named_empty, List.nil_append]
  split
  · next hslash =>
    obtain ⟨front, hfront⟩ := List.getLast?_eq_some_iff.mp (by simpa using hslash)
    have hp : p = ⟨String.ofList (front ++ '/' :: [])⟩ := by
      rw [← hfront, String.ofList_toList]
    have hjoined : p.text ++ q.text = String.ofList (front ++ '/' :: q.text.toList) := by
      rw [← String.toList_inj, String.toList_append, hfront, String.toList_ofList]
      simp
    rw [hjoined, named_cut, hp, named_cut, String.ofList_toList]
    simp [named_empty]
  · have hjoined : p.text ++ "/" ++ q.text =
        String.ofList (p.text.toList ++ '/' :: q.text.toList) := by
      rw [← String.toList_inj]
      simp
    rw [hjoined, named_cut, String.ofList_toList, String.ofList_toList]

theorem wantsDirectory_join (p : Path) {q : Path} (hne : q.isEmpty = false) :
    wantsDirectory (p.join q) = wantsDirectory q := by
  obtain ⟨first, rest, hq⟩ := List.exists_cons_of_ne_nil
    (show q.text.toList ≠ [] by simpa [Path.isEmpty] using hne)
  unfold wantsDirectory Path.join
  split
  · rfl
  · split <;> simp [hq, List.getLast?_append]

/-- A name is one step. -/
theorem named_of_name {name : String} (h : Nameable name) : named ⟨name⟩ = [.enter name] := by
  obtain ⟨hempty, hdot, hdots, hslash⟩ := h
  have hpiece : ofPiece name.toList = some (.enter name) := by
    unfold ofPiece
    rw [if_neg (by simpa using hempty),
      if_neg (fun h => hdot (by rw [← String.toList_inj, h]; rfl)),
      if_neg (fun h => hdots (by rw [← String.toList_inj, h]; rfl)), String.ofList_toList]
  rw [named, List.splitOn_eq_singleton hslash]
  simp [hpiece]

theorem ofPath_eq (p : Path) :
    ∃ last, (last = [] ∨ last = [.inside]) ∧ ofPath p = named p ++ last := by
  unfold ofPath
  split
  · exact ⟨_, .inr rfl, rfl⟩
  · exact ⟨_, .inl rfl, rfl⟩

/-- Steps enter nothing but names. -/
theorem nameable_of_enter {p : Path} {name : String} (h : enter name ∈ ofPath p) :
    Nameable name := by
  obtain ⟨last, hlast, hsteps⟩ := ofPath_eq p
  rw [hsteps, List.mem_append] at h
  have hnamed : enter name ∈ named p := by
    refine h.resolve_right fun hmem => ?_
    rcases hlast with rfl | rfl
    · cases hmem
    · cases List.mem_singleton.mp hmem
  obtain ⟨piece, hpiece, hof⟩ := List.mem_filterMap.mp hnamed
  have hslash := (Text.of_mem_splitOn hpiece).1
  unfold ofPiece at hof
  split at hof
  · cases hof
  split at hof
  · cases hof
  split at hof
  · cases hof
  · next hempty hdot hdots =>
    obtain rfl : String.ofList piece = name := by simpa using hof
    refine ⟨fun h => hempty ?_, fun h => hdot ?_, fun h => hdots ?_, by rwa [String.toList_ofList]⟩
    all_goals rw [← String.toList_inj, String.toList_ofList] at h; exact h

/-- The last step to a name below a path enters that name. -/
theorem ofPath_join_name (p : Path) {name : String} (h : Nameable name) :
    ofPath (p.join ⟨name⟩) = named p ++ [.enter name] := by
  have hlast : name.toList.getLast? ≠ some '/' :=
    fun hend => h.2.2.2 (List.mem_of_mem_getLast? hend)
  have hopen : wantsDirectory (p.join ⟨name⟩) = false := by
    rw [wantsDirectory_join p (by simpa [Path.isEmpty] using h.1)]
    simpa [wantsDirectory] using hlast
  rw [ofPath, hopen, named_join h.isAbsolute, named_of_name h, if_neg Bool.false_ne_true,
    List.append_nil]

end Step

/-- Where a path starts is not changed by what is joined to it. -/
theorem Path.isAbsolute_join {p q : Path} (h : q.isAbsolute = false) :
    (p.join q).isAbsolute = p.isAbsolute := by
  unfold Path.join
  rw [h, Bool.false_or]
  split
  · next hempty =>
    have hp : p.text = "" := by simpa [Path.isEmpty] using hempty
    simpa [Path.isAbsolute, hp] using h
  · next hne =>
    have hfirst : p.text.toList ≠ [] := by simpa [Path.isEmpty] using hne
    split <;> simp [Path.isAbsolute, List.head?_append_of_ne_nil _ hfirst]

namespace FileSystem

theorem origin_join {p q : Path} (h : q.isAbsolute = false) (place : Location) :
    origin place (p.join q) = origin place p := by
  rw [origin, origin, Path.isAbsolute_join h]

/-! ### Steps that go on -/

/-- A path goes on from another one by some steps. -/
structure Continues (base : Path) (steps : List Step) (p : Path) : Prop where
  named : Step.named p = Step.named base ++ steps
  origin : ∀ place, origin place p = origin place base

theorem Continues.refl (base : Path) : Continues base [] base := ⟨by simp, fun _ => rfl⟩

theorem Continues.join {base p : Path} {steps : List Step} (h : Continues base steps p) {q : Path}
    (hq : q.isAbsolute = false) : Continues base (steps ++ Step.named q) (p.join q) where
  named := by rw [Step.named_join hq, h.named, List.append_assoc]
  origin place := by rw [origin_join hq, h.origin]

theorem Continues.extend {base : Path} {parts : List String}
    (hparts : ∀ part ∈ parts, (Path.mk part).isAbsolute = false) {p : Path} {steps : List Step}
    (h : Continues base steps p) :
    Continues base (steps ++ parts.flatMap fun part => Step.named ⟨part⟩) (p.extend parts) := by
  induction parts generalizing p steps with
  | nil => simpa [Path.extend] using h
  | cons part rest ih =>
    have hfirst := h.join (hparts part (List.mem_cons_self ..))
    rw [List.flatMap_cons, ← List.append_assoc]
    exact ih (fun part hpart => hparts part (List.mem_cons_of_mem _ hpart)) hfirst

theorem follow_append (names : Location) (first more : List Step) :
    follow names (first ++ more) = (follow names first).bind fun names => follow names more := by
  induction names, first using follow.induct with
  | case1 names => rfl
  | case2 names name rest ih => exact ih
  | case3 rest => rfl
  | case4 name names rest ih => exact ih
  | case5 names rest ih => simpa [follow] using ih
  | case6 names rest ih => simpa [follow] using ih

variable {fs : FileSystem} {ending : Ending} {base p : Path} {steps : List Step}
  {top place : Location}

/-- Where the steps of a path head the path itself heads, with a separator at its end or not. -/
theorem heads_of_named (h : Aims fs .followed (origin fs.workingDirectory p) (Step.named p) place) :
    fs.Heads .followed p place := by
  obtain ⟨last, hlast, hsteps⟩ := Step.ofPath_eq p
  unfold Heads
  rw [hsteps]
  refine h.append ?_ (by simp)
  rcases hlast with rfl | rfl
  · exact .here
  · exact .inside .here

/-- Below a directory without links a path heads where its own steps lead. -/
theorem Continues.inside (h : Continues base steps p) (hbase : fs.Heads .followed base top)
    (hlinks : Unlinked fs top) {names : Location} (hf : follow [] steps = some names)
    (hend : steps = [] → ending ≠ .kept) (hp : fs.Heads ending p place) : place = top ++ names := by
  obtain ⟨last, hlast, hsteps⟩ := Step.ofPath_eq p
  unfold Heads at hp
  rw [hsteps, h.named, h.origin, List.append_assoc] at hp
  obtain ⟨between, hfirst, hmore⟩ := hp.split fun hnil => hend (List.append_eq_nil_iff.mp hnil).1
  have hbetween : between = top := (heads_of_named hfirst).unique hbase
  have hall : follow [] (steps ++ last) = some names := by
    rw [follow_append, hf]
    rcases hlast with rfl | rfl <;> rfl
  have hinside : Aims fs ending (top ++ []) (steps ++ last) (top ++ names) := hlinks.aims hall
  rw [List.append_nil] at hinside
  rw [hbetween] at hmore
  exact hmore.unique hinside

/-- A single name below a path is right in the directory that the path heads to. -/
theorem heads_join_name {name : String} (hname : Nameable name)
    (h : fs.Heads .kept (p.join ⟨name⟩) place) :
    ∃ room, fs.Heads .followed p room ∧ place = room ++ [name] := by
  unfold Heads at h
  rw [Step.ofPath_join_name p hname, origin_join hname.isAbsolute] at h
  obtain ⟨room, hroom, hlast⟩ := h.split (by simp)
  refine ⟨room, heads_of_named hroom, ?_⟩
  cases hlast with
  | enter _ hrest => cases hrest; rfl
  | kept _ _ => rfl
  | followed _ hkept _ => exact absurd ⟨rfl, rfl⟩ hkept

end FileSystem

end StableWheel
