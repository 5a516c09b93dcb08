import StableWheel.FileSystem.Operations

/-! Where steps lead, as a relation.

`Walk` has one constructor for each thing that a step can meet, so what holds of every place
that a path leads to is shown by induction on how it was reached. It is what `walk` computes
(`walk_iff`). -/
namespace StableWheel.FileSystem

/-- Whether a name may be entered at all, whatever it names. -/
def Passable (ending : Ending) (name : String) (rest : List Step) : Prop :=
  ¬ (ending = .written ∧ rest = [.inside]) ∧ name.utf8ByteSize ≤ nameLimit

/-- The steps lead from the first place to the second, over at most so many links. -/
inductive Walk (fs : FileSystem) (ending : Ending) :
    Nat → Location → List Step → Location → Prop where
  | here {links place} : Walk fs ending links place [] place
  | stay {links place rest found} : Walk fs ending links place rest found →
      Walk fs ending links place (.stay :: rest) found
  | inside {links place rest found} : Walk fs ending links place rest found →
      Walk fs ending links place (.inside :: rest) found
  | up {links place rest found} : Walk fs ending links place.dropLast rest found →
      Walk fs ending links place (.up :: rest) found
  | directory {links place name rest found} : Passable ending name rest →
      fs.lookup (place ++ [name]) = some .directory →
      Walk fs ending links (place ++ [name]) rest found →
      Walk fs ending links place (.enter name :: rest) found
  | nothing {links place name} : Passable ending name [] →
      fs.lookup (place ++ [name]) = none →
      Walk fs ending links place [.enter name] (place ++ [name])
  | file {links place name f} : Passable ending name [] →
      fs.lookup (place ++ [name]) = some (.file f) →
      Walk fs ending links place [.enter name] (place ++ [name])
  | kept {links place name target} : Passable ending name [] →
      fs.lookup (place ++ [name]) = some (.link target) → ending = .kept →
      Walk fs ending links place [.enter name] (place ++ [name])
  | followed {links place name rest target found} : Passable ending name rest →
      fs.lookup (place ++ [name]) = some (.link target) → ¬ (rest = [] ∧ ending = .kept) →
      Walk fs ending links (origin place target) (Step.ofPath target ++ rest) found →
      Walk fs ending (links + 1) place (.enter name :: rest) found

/-! ### One step -/

variable {fs : FileSystem} {ending : Ending}

theorem walk_nil (links : Nat) (place : Location) :
    fs.walk ending links place [] = .ok place := by
  cases links <;> rfl

theorem walk_stay (links : Nat) (place : Location) (rest : List Step) :
    fs.walk ending links place (.stay :: rest) = fs.walk ending links place rest := by
  cases links <;> rfl

theorem walk_inside (links : Nat) (place : Location) (rest : List Step) :
    fs.walk ending links place (.inside :: rest) = fs.walk ending links place rest := by
  cases links <;> rfl

theorem walk_up (links : Nat) (place : Location) (rest : List Step) :
    fs.walk ending links place (.up :: rest) = fs.walk ending links place.dropLast rest := by
  cases links <;> rfl

/-- Where a link leads, if one more may be followed. -/
def jump (fs : FileSystem) (ending : Ending) :
    Nat → Location → List Step → Except FileError Location
  | 0, _, _ => .error (.os .linkLoop)
  | links + 1, place, steps => fs.walk ending links place steps

/-- What comes of entering a name that may be entered. -/
def entered (fs : FileSystem) (ending : Ending) (links : Nat) (place : Location)
    (name : String) (rest : List Step) : Except FileError Location :=
  match fs.lookup (place ++ [name]) with
  | none => if rest.isEmpty then .ok (place ++ [name]) else .error (.os .noEntry)
  | some .directory => fs.walk ending links (place ++ [name]) rest
  | some (.file _) => if rest.isEmpty then .ok (place ++ [name]) else .error (.os .notDirectory)
  | some (.link target) =>
    if rest.isEmpty && ending = .kept then .ok (place ++ [name])
    else fs.jump ending links (origin place target) (Step.ofPath target ++ rest)

theorem walk_enter (links : Nat) (place : Location) (name : String) (rest : List Step) :
    fs.walk ending links place (.enter name :: rest) =
      if ending = .written && rest == [.inside] then .error (.os .isDirectory)
      else if nameLimit < name.utf8ByteSize then .error (.os .nameTooLong)
      else fs.entered ending links place name rest := by
  cases links <;> rfl

theorem walk_enter_ok {links : Nat} {place found : Location} {name : String}
    {rest : List Step} :
    fs.walk ending links place (.enter name :: rest) = .ok found ↔
      Passable ending name rest ∧ fs.entered ending links place name rest = .ok found := by
  rw [walk_enter]
  unfold Passable
  split
  · next h => simp_all
  · next h =>
    split
    · next hlong => simp [Nat.not_le.mpr hlong]
    · next hlong => simp_all

/-! ### The relation and the function -/

theorem Walk.sound {links : Nat} {place found : Location} {steps : List Step}
    (h : Walk fs ending links place steps found) :
    fs.walk ending links place steps = .ok found := by
  induction h with
  | here => exact walk_nil ..
  | stay _ ih => rw [walk_stay, ih]
  | inside _ ih => rw [walk_inside, ih]
  | up _ ih => rw [walk_up, ih]
  | directory hp hl _ ih => exact walk_enter_ok.mpr ⟨hp, by rw [entered, hl]; exact ih⟩
  | nothing hp hl => exact walk_enter_ok.mpr ⟨hp, by rw [entered, hl]; rfl⟩
  | file hp hl => exact walk_enter_ok.mpr ⟨hp, by rw [entered, hl]; rfl⟩
  | kept hp hl hk => exact walk_enter_ok.mpr ⟨hp, by rw [entered, hl]; simp [hk]⟩
  | followed hp hl hk _ ih =>
    refine walk_enter_ok.mpr ⟨hp, ?_⟩
    simp only [entered, hl, jump, ih]
    rw [if_neg (by simpa using hk)]

/-- The induction is on the links that may still be followed, and within that on the steps. -/
theorem Walk.complete {links : Nat} {place found : Location} {steps : List Step}
    (h : fs.walk ending links place steps = .ok found) :
    Walk fs ending links place steps found := by
  induction links using Nat.strongRecOn generalizing place steps with
  | ind links ihlinks =>
  induction steps generalizing place with
  | nil =>
    rw [walk_nil] at h
    cases h
    exact .here
  | cons step rest ih =>
    cases step with
    | stay => exact .stay (ih (by rwa [walk_stay] at h))
    | inside => exact .inside (ih (by rwa [walk_inside] at h))
    | up => exact .up (ih (by rwa [walk_up] at h))
    | enter name =>
      obtain ⟨hp, he⟩ := walk_enter_ok.mp h
      unfold entered at he
      split at he
      · next hl =>
        cases rest with
        | nil => cases he; exact .nothing hp hl
        | cons _ _ => cases he
      · next hl => exact .directory hp hl (ih he)
      · next hl =>
        cases rest with
        | nil => cases he; exact .file hp hl
        | cons _ _ => cases he
      · next target hl =>
        split at he
        · next hk =>
          simp only [Bool.and_eq_true, List.isEmpty_iff, decide_eq_true_eq] at hk
          obtain ⟨rfl, hk⟩ := hk
          cases he
          exact .kept hp hl hk
        · next hk =>
          cases links with
          | zero => cases he
          | succ links =>
            exact .followed hp hl (by simpa using hk) (ihlinks links (Nat.lt_succ_self _) he)

theorem walk_iff {links : Nat} {place found : Location} {steps : List Step} :
    fs.walk ending links place steps = .ok found ↔ Walk fs ending links place steps found :=
  ⟨Walk.complete, Walk.sound⟩

/-! ### Paths -/

theorem resolve_iff {p : Path} {place : Location} :
    fs.resolve p ending = .ok place ↔
      checkPath p = .ok () ∧
        Walk fs ending linkLimit (origin fs.workingDirectory p) (Step.ofPath p) place := by
  rw [← walk_iff]
  unfold resolve
  cases checkPath p with
  | error e => simp [bind, Except.bind]
  | ok _ => simp [bind, Except.bind]

theorem find_iff {p : Path} {place : Location} {n : Entry} :
    fs.find p ending = .ok (place, n) ↔
      fs.resolve p ending = .ok place ∧ fs.lookup place = some n := by
  unfold find
  cases fs.resolve p ending with
  | error e => simp [bind, Except.bind]
  | ok found =>
    simp only [bind, Except.bind, Except.ok.injEq]
    cases hl : fs.lookup found with
    | none =>
      constructor
      · intro h
        cases h
      · rintro ⟨rfl, h⟩
        rw [hl] at h
        cases h
    | some m =>
      constructor
      · intro h
        cases h
        exact ⟨rfl, hl⟩
      · rintro ⟨rfl, h⟩
        rw [hl] at h
        cases h
        rfl

/-! ### A link at the end -/

/-- Steps that follow every link lead to the same place if a link at the end is kept, or to such a
link. -/
theorem Walk.kept_or_link {links : Nat} {start found : Location} {steps : List Step}
    (hw : Walk fs .followed links start steps found) :
    Walk fs .kept links start steps found ∨
      ∃ place target, Walk fs .kept links start steps place ∧
        fs.lookup place = some (.link target) := by
  have hpass : ∀ {name rest}, Passable .followed name rest → Passable .kept name rest :=
    fun hp => ⟨by simp, hp.2⟩
  induction hw with
  | here => exact .inl .here
  | stay _ ih => exact ih.imp .stay fun ⟨place, target, hk, hl⟩ => ⟨place, target, .stay hk, hl⟩
  | inside _ ih =>
    exact ih.imp .inside fun ⟨place, target, hk, hl⟩ => ⟨place, target, .inside hk, hl⟩
  | up _ ih => exact ih.imp .up fun ⟨place, target, hk, hl⟩ => ⟨place, target, .up hk, hl⟩
  | directory hp hd _ ih =>
    exact ih.imp (.directory (hpass hp) hd) fun ⟨place, target, hk, hl⟩ =>
      ⟨place, target, .directory (hpass hp) hd hk, hl⟩
  | nothing hp hl => exact .inl (.nothing (hpass hp) hl)
  | file hp hl => exact .inl (.file (hpass hp) hl)
  | kept _ _ hk => cases hk
  | @followed _ above name rest target _ hp hl _ _ ih =>
    by_cases hrest : rest = []
    · subst hrest
      exact .inr ⟨_, target, .kept (hpass hp) hl rfl, hl⟩
    · have hmore : ¬ (rest = [] ∧ Ending.kept = .kept) := fun h => hrest h.1
      exact ih.imp (.followed (hpass hp) hl hmore) fun ⟨place, target', hk, hl'⟩ =>
        ⟨place, target', .followed (hpass hp) hl hmore hk, hl'⟩

theorem find_kept_or_link {p : Path} {place : Location} {n : Entry}
    (h : fs.find p .followed = .ok (place, n)) :
    fs.find p .kept = .ok (place, n) ∨
      ∃ link target, fs.find p .kept = .ok (link, .link target) := by
  obtain ⟨hr, hl⟩ := find_iff.mp h
  obtain ⟨hc, hw⟩ := resolve_iff.mp hr
  rcases hw.kept_or_link with hk | ⟨link, target, hk, hlink⟩
  · exact .inl (find_iff.mpr ⟨resolve_iff.mpr ⟨hc, hk⟩, hl⟩)
  · exact .inr ⟨link, target, find_iff.mpr ⟨resolve_iff.mpr ⟨hc, hk⟩, hlink⟩⟩

end StableWheel.FileSystem
