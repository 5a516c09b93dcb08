import StableWheel.Proofs.FileSystem.Walk

/-! What each operation changes.

Every operation puts at most one entry at one place, or creates directories one at a time, so
a relation that one new entry respects is respected by the operation. -/
namespace StableWheel.FileSystem

/-- A relation between the files before and after that holds if nothing happens, and if it
holds of two things that happen one after the other then of both together. -/
structure Composes (R : FileSystem → FileSystem → Prop) : Prop where
  refl : ∀ fs, R fs fs
  trans : ∀ {a b c}, R a b → R b c → R a c

theorem lookup_put (fs : FileSystem) (place : Location) (n : Entry) (other : Location)
    (h : place ≠ []) :
    (fs.put place n).lookup other = if other = place then some n else fs.lookup other := by
  by_cases ho : other = place
  · rw [if_pos ho, ho, lookup_put_self fs place n h]
  · rw [if_neg ho, lookup_put_of_ne fs place other n ho]

theorem ne_root {fs : FileSystem} {place : Location}
    (h : fs.lookup place ≠ some .directory) : place ≠ [] := by
  rintro rfl
  exact h (lookup_root fs)

/-! ### Directories -/

/-- A new directory is where nothing was. -/
theorem createDirectory_cases (fs : FileSystem) (p : Path) :
    (fs.createDirectory p).2 = fs ∨ ∃ place,
      Walk fs .kept linkLimit (origin fs.workingDirectory p) (Step.named p) place ∧
      fs.lookup place = none ∧ (fs.createDirectory p).2 = fs.put place .directory := by
  unfold createDirectory
  cases hc : checkPath p with
  | error e => exact .inl rfl
  | ok _ =>
    cases hw : walk fs .kept linkLimit (origin fs.workingDirectory p) (Step.named p) with
    | error e => exact .inl rfl
    | ok place =>
      cases hl : fs.lookup place with
      | some n => exact .inl (by simp [bind, Except.bind, hl])
      | none =>
        exact .inr ⟨place, walk_iff.mp hw, hl, by simp [bind, Except.bind, hl]⟩

section
variable {R : FileSystem → FileSystem → Prop}

theorem ensureDirectory_moves (h : ∀ fs p, R fs (fs.createDirectory p).2)
    (fs : FileSystem) (p : Path) : R fs (fs.ensureDirectory p).2 := by
  have hp := h fs p
  unfold ensureDirectory
  split
  · next heq => rwa [heq] at hp
  · next heq =>
    rw [heq] at hp
    split <;> exact hp

theorem createUpwards_moves (hR : Composes R) (h : ∀ fs p, R fs (fs.createDirectory p).2)
    (n : Nat) (fs : FileSystem) (p : Path) : R fs (fs.createUpwards n p).2 := by
  induction n generalizing fs p with
  | zero => exact ensureDirectory_moves h fs p
  | succ n ih =>
    have hp := ensureDirectory_moves h fs p
    unfold createUpwards
    split
    · next fs' he =>
      rw [he] at hp
      split
      · exact hp
      · next above _ =>
        split
        · exact hR.trans hp (ensureDirectory_moves h fs' p)
        · have habove := ih fs' above
          split
          · next heq =>
            rw [heq] at habove
            exact hR.trans hp habove
          · next heq =>
            rw [heq] at habove
            exact hR.trans (hR.trans hp habove) (ensureDirectory_moves h _ p)
    · exact hp

/-- What holds of every new directory holds of all that are made on the way to one. -/
theorem createDirectories_moves (hR : Composes R) (h : ∀ fs p, R fs (fs.createDirectory p).2)
    (fs : FileSystem) (p : Path) : R fs (fs.createDirectories p).2 := by
  unfold createDirectories
  split
  · exact hR.refl fs
  · exact createUpwards_moves hR h _ fs p

end

/-! ### Files -/

theorem write_cases (fs : FileSystem) (p : Path) (f : File) :
    (∃ e, fs.write p f = (.error e, fs)) ∨ ∃ place,
      fs.resolve p .written = .ok place ∧ fs.lookup place ≠ some .directory ∧
      fs.write p f = (.ok (), fs.put place (.file f)) := by
  unfold write
  cases hr : fs.resolve p .written with
  | error e => exact .inl ⟨e, rfl⟩
  | ok place =>
    dsimp only
    split
    · exact .inl ⟨_, rfl⟩
    · next hl => exact .inr ⟨place, rfl, hl, rfl⟩

/-- What a copy leaves at its target: what the source holds, unless the target is the source. -/
def leaves (f : File) (origin place : Location) : File :=
  if place = origin then File.emptied f else f

theorem copy_cases (fs : FileSystem) (source target : Path) :
    (∃ e, fs.copy source target = (.error e, fs)) ∨ ∃ origin f place,
      fs.find source .followed = .ok (origin, .file f) ∧
      fs.resolve target .written = .ok place ∧ fs.lookup place ≠ some .directory ∧
      fs.copy source target = (.ok (), fs.put place (.file (leaves f origin place))) := by
  unfold copy
  rcases hf : fs.find source .followed with e | ⟨origin, f | _ | _⟩
  · exact .inl ⟨e, rfl⟩
  · cases hr : fs.resolve target .written with
    | error e => exact .inl ⟨e, rfl⟩
    | ok place =>
      have hsplit : (if place = origin then fs.write target (File.emptied f)
          else fs.write target f) = fs.write target (leaves f origin place) := by
        unfold leaves
        split <;> rfl
      dsimp only
      rw [hsplit]
      rcases write_cases fs target (leaves f origin place) with ⟨e, hw⟩ | ⟨place', hr', hl, hw⟩
      · exact .inl ⟨e, hw⟩
      · rw [hr] at hr'
        cases hr'
        exact .inr ⟨origin, f, place, rfl, rfl, hl, hw⟩
  · exact .inl ⟨_, rfl⟩
  · exact .inl ⟨_, rfl⟩

end StableWheel.FileSystem
