import StableWheel.Proofs.FileSystem.Making
import StableWheel.Proofs.FileSystem.Naming

/-! What does not hang on the contents of files.

File systems of the same shape have the same directories and links, and files in the same places
(`SameShape`). Every path leads to the same place in them (`SameShape.resolve`), and only what is
read from a file can tell them apart. A file system that has grown without changing its shape has
not changed its shape on the way either (`SameShape.between`). Where the contents are the same as
well, in whatever order the entries are listed (`SameFiles`), new directories come out the same
(`SameFiles.createDirectories`). -/
namespace StableWheel.FileSystem

/-- The same directories and links, and files in the same places. -/
structure SameShape (a b : FileSystem) : Prop where
  workingDirectory : b.workingDirectory = a.workingDirectory
  entry : ∀ place, a.lookup place = b.lookup place ∨
    ∃ f f', a.lookup place = some (.file f) ∧ b.lookup place = some (.file f')

/-- The same files, directories and links, however they are listed. -/
structure SameFiles (a b : FileSystem) : Prop where
  workingDirectory : b.workingDirectory = a.workingDirectory
  lookup : ∀ place, b.lookup place = a.lookup place

variable {a b c : FileSystem} {ending : Ending} {p : Path} {place : Location}

theorem SameFiles.refl (fs : FileSystem) : SameFiles fs fs := ⟨rfl, fun _ => rfl⟩

theorem SameFiles.symm (h : SameFiles a b) : SameFiles b a :=
  ⟨h.workingDirectory.symm, fun place => (h.lookup place).symm⟩

theorem SameFiles.trans (h : SameFiles a b) (h' : SameFiles b c) : SameFiles a c :=
  ⟨h'.workingDirectory.trans h.workingDirectory,
    fun place => (h'.lookup place).trans (h.lookup place)⟩

theorem SameFiles.shape (h : SameFiles a b) : SameShape a b :=
  ⟨h.workingDirectory, fun place => .inl (h.lookup place).symm⟩

/-- Where nothing is listed twice, the order of the list makes no difference. -/
theorem lookup_of_perm {entries listed : List (Location × Entry)} (h : listed.Perm entries)
    (hnodup : (listed.map Prod.fst).Nodup) (place : Location) :
    listed.lookup place = entries.lookup place := by
  induction h with
  | nil => rfl
  | cons e _ ih => rw [List.lookup_cons, List.lookup_cons, ih (List.nodup_cons.mp hnodup).2]
  | swap e e' rest =>
    rw [List.map_cons, List.map_cons, List.nodup_cons] at hnodup
    have hne : e'.1 ≠ e.1 := fun heq => hnodup.1 (by simp [heq])
    rw [List.lookup_cons, List.lookup_cons, List.lookup_cons, List.lookup_cons]
    cases he : place == e.1 with
    | false => rfl
    | true =>
      have hother : (place == e'.1) = false :=
        beq_false_of_ne fun heq => hne (heq.symm.trans (eq_of_beq he))
      rw [hother]
  | trans hfirst _ ih ih' =>
    exact (ih hnodup).trans (ih' ((hfirst.map Prod.fst).nodup_iff.mp hnodup))

theorem SameFiles.of_perm (ha : a.Tidy) (hworking : b.workingDirectory = a.workingDirectory)
    (hperm : a.entries.Perm b.entries) : SameFiles a b where
  workingDirectory := hworking
  lookup place := by
    unfold FileSystem.lookup
    rw [lookup_of_perm hperm ha.once]

theorem Tidy.of_perm (ha : a.Tidy) (hworking : b.workingDirectory = a.workingDirectory)
    (hperm : a.entries.Perm b.entries) : b.Tidy where
  once := (hperm.map Prod.fst).nodup_iff.mp ha.once
  named e he := ha.named e (hperm.mem_iff.mpr he)
  working := hworking ▸ ha.working

theorem SameFiles.put (h : SameFiles a b) (place : Location) (n : Entry) :
    SameFiles (a.put place n) (b.put place n) := by
  refine ⟨h.workingDirectory, fun other => ?_⟩
  by_cases hother : other = place
  · subst hother
    by_cases hroot : other = []
    · subst hroot
      rfl
    · rw [lookup_put_self _ _ _ hroot, lookup_put_self _ _ _ hroot]
  · rw [lookup_put_of_ne _ _ _ _ hother, lookup_put_of_ne _ _ _ _ hother, h.lookup]

theorem SameShape.refl (fs : FileSystem) : SameShape fs fs := (SameFiles.refl fs).shape

theorem SameShape.symm (h : SameShape a b) : SameShape b a :=
  ⟨h.workingDirectory.symm, fun place =>
    (h.entry place).imp Eq.symm fun ⟨f, f', hf, hf'⟩ => ⟨f', f, hf', hf⟩⟩

theorem SameShape.trans (h : SameShape a b) (h' : SameShape b c) : SameShape a c := by
  refine ⟨h'.workingDirectory.trans h.workingDirectory, fun place => ?_⟩
  rcases h.entry place with heq | ⟨f, f', hf, hf'⟩ <;>
    rcases h'.entry place with heq' | ⟨g, g', hg, hg'⟩
  · exact .inl (heq.trans heq')
  · exact .inr ⟨g, g', heq.trans hg, hg'⟩
  · exact .inr ⟨f, f', hf, heq'.symm.trans hf'⟩
  · exact .inr ⟨f, g', hf, hg'⟩

/-- A file in the place of a file keeps the shape. -/
theorem SameShape.put_file {f f' : File} (hf : a.lookup place = some (.file f)) :
    SameShape a (a.put place (.file f')) := by
  have hroot : place ≠ [] := ne_root (by rw [hf]; simp)
  refine ⟨rfl, fun other => ?_⟩
  rw [lookup_put _ _ _ _ hroot]
  split
  · next heq => exact .inr ⟨f, f', by rw [heq, hf], rfl⟩
  · exact .inl rfl

theorem SameShape.file (h : SameShape a b) {f : File} (hf : a.lookup place = some (.file f)) :
    ∃ f', b.lookup place = some (.file f') := by
  rcases h.entry place with heq | ⟨-, f', -, hf'⟩
  · exact ⟨f, heq.symm.trans hf⟩
  · exact ⟨f', hf'⟩

theorem SameShape.grows (h : SameShape a b) : Grows a b where
  workingDirectory := h.workingDirectory
  directory place hl := by
    rcases h.entry place with heq | ⟨f, -, hf, -⟩
    · rw [← heq, hl]
    · rw [hl] at hf
      cases hf
  link place target hl := by
    rcases h.entry place with heq | ⟨f, -, hf, -⟩
    · rw [← heq, hl]
    · rw [hl] at hf
      cases hf
  file _ _ hl := h.file hl
  nothing place target hl := by
    rcases h.entry place with heq | ⟨f, -, hf, -⟩
    · rw [← heq, hl]
      simp
    · rw [hl] at hf
      cases hf

/-- Nothing can have come and gone. -/
theorem SameShape.between (h : Grows a b) (h' : Grows b c) (hshape : SameShape a c) :
    SameShape a b := by
  refine ⟨h.workingDirectory, fun place => ?_⟩
  rcases ha : a.lookup place with _ | (f | _ | target)
  · -- what is new in the middle would still be there in the end
    have hc : c.lookup place = none := by
      rcases hshape.entry place with heq | ⟨f, -, hf, -⟩
      · rw [← heq, ha]
      · rw [ha] at hf
        cases hf
    rcases hb : b.lookup place with _ | (f | _ | target)
    · exact .inl rfl
    · obtain ⟨f', hf'⟩ := h'.file place f hb
      rw [hc] at hf'
      cases hf'
    · rw [h'.directory place hb] at hc
      cases hc
    · exact absurd hb (h.nothing place target ha)
  · obtain ⟨f', hf'⟩ := h.file place f ha
    exact .inr ⟨f, f', rfl, hf'⟩
  · exact .inl (h.directory place ha).symm
  · exact .inl (h.link place target ha).symm

theorem SameFiles.isTree (h : SameFiles a b) (ht : a.IsTree) : b.IsTree := by
  refine ⟨fun place name n hl => ?_, ?_⟩
  · rw [h.lookup] at hl ⊢
    exact ht.parent place name n hl
  · rw [h.workingDirectory, h.lookup]
    exact ht.working

/-- Directories that were made without changing the shape had been there. -/
theorem Makes.sameFiles (h : Makes p a b) (hshape : SameShape a b) : SameFiles a b := by
  refine ⟨hshape.workingDirectory, fun place => ?_⟩
  rcases ha : a.lookup place with _ | n
  · rcases hshape.entry place with heq | ⟨f, -, hf, -⟩
    · rw [← heq, ha]
    · rw [ha] at hf
      cases hf
  · exact h.kept.lookup place n ha

/-! ### Paths -/

/-- The induction is on the links that may still be followed, and within that on the steps. -/
theorem SameShape.walk (h : SameShape a b) (links : Nat) (start : Location) (steps : List Step) :
    a.walk ending links start steps = b.walk ending links start steps := by
  induction links using Nat.strongRecOn generalizing start steps with
  | ind links ihlinks =>
  have hjump : ∀ start steps, a.jump ending links start steps = b.jump ending links start steps := by
    cases links with
    | zero => exact fun _ _ => rfl
    | succ links => exact ihlinks links (Nat.lt_succ_self _)
  induction steps generalizing start with
  | nil => rw [walk_nil, walk_nil]
  | cons step rest ih =>
    cases step with
    | stay => rw [walk_stay, walk_stay, ih]
    | inside => rw [walk_inside, walk_inside, ih]
    | up => rw [walk_up, walk_up, ih]
    | enter name =>
      have hentered :
          a.entered ending links start name rest = b.entered ending links start name rest := by
        unfold entered
        rcases h.entry (start ++ [name]) with heq | ⟨f, f', hf, hf'⟩
        · rw [heq, ih, funext fun start => funext (hjump start)]
        · rw [hf, hf']
      rw [walk_enter, walk_enter, hentered]

theorem SameShape.resolve (h : SameShape a b) : a.resolve p ending = b.resolve p ending := by
  unfold FileSystem.resolve
  rw [h.workingDirectory, h.walk]

theorem SameShape.find (h : SameShape a b) (p : Path) (ending : Ending) :
    a.find p ending = b.find p ending ∨ ∃ place f f', a.find p ending = .ok (place, .file f) ∧
      b.find p ending = .ok (place, .file f') := by
  unfold FileSystem.find
  rw [h.resolve]
  rcases b.resolve p ending with e | place
  · exact .inl rfl
  · rcases h.entry place with heq | ⟨f, f', hf, hf'⟩
    · exact .inl (by simp only [bind, Except.bind, heq])
    · exact .inr ⟨place, f, f', by simp only [bind, Except.bind, hf]; rfl,
        by simp only [bind, Except.bind, hf']; rfl⟩

theorem SameShape.isFile (h : SameShape a b) : a.isFile p = b.isFile p := by
  unfold FileSystem.isFile status
  rcases h.find p .followed with heq | ⟨place, f, f', hf, hf'⟩
  · rw [heq]
  · rw [hf, hf']
    rfl

theorem SameShape.isDirectory (h : SameShape a b) : a.isDirectory p = b.isDirectory p := by
  unfold FileSystem.isDirectory status
  rcases h.find p .followed with heq | ⟨place, f, f', hf, hf'⟩
  · rw [heq]
  · rw [hf, hf']
    rfl

theorem SameShape.status_isOk (h : SameShape a b) : (a.status p).isOk = (b.status p).isOk := by
  unfold status
  rcases h.find p .followed with heq | ⟨place, f, f', hf, hf'⟩
  · rw [heq]
  · rw [hf, hf']
    rfl

theorem SameShape.exists? (h : SameShape a b) : a.exists? p = b.exists? p := by
  unfold FileSystem.exists?
  rcases h.find p .kept with heq | ⟨place, f, f', hf, hf'⟩
  · rw [heq]
  · rw [hf, hf']
    rfl

theorem SameShape.names (h : SameShape a b) (ha : Tidy a) (hb : Tidy b) :
    a.names place = b.names place := by
  refine names_eq ha hb fun name => ?_
  rcases h.entry (place ++ [name]) with heq | ⟨f, f', hf, hf'⟩
  · rw [heq]
  · rw [hf, hf']
    simp

theorem SameShape.readDirectory (h : SameShape a b) (ha : Tidy a) (hb : Tidy b) :
    a.readDirectory p = b.readDirectory p := by
  unfold FileSystem.readDirectory
  rcases h.find p .followed with heq | ⟨place, f, f', hf, hf'⟩
  · rw [heq]
    rcases b.find p .followed with e | ⟨place, f | _ | target⟩
    · rfl
    · rfl
    · simp only [bind, Except.bind, h.names ha hb]
    · rfl
  · rw [hf, hf']
    rfl

/-! ### New directories in the same files -/

theorem SameFiles.find (h : SameFiles a b) (p : Path) (ending : Ending) :
    a.find p ending = b.find p ending := by
  unfold FileSystem.find
  rw [h.shape.resolve]
  simp only [h.lookup]

/-- The same answer, with the same files left. -/
structure SameOutcome {α : Type} (first second : Outcome α) : Prop where
  answer : second.1 = first.1
  files : SameFiles first.2 second.2

theorem SameOutcome.cases {α : Type} {first second : Outcome α} (h : SameOutcome first second) :
    ∃ answer a b, first = (answer, a) ∧ second = (answer, b) ∧ SameFiles a b :=
  ⟨first.1, first.2, second.2, rfl, Prod.ext h.answer rfl, h.files⟩

theorem SameFiles.createDirectory (h : SameFiles a b) (p : Path) :
    SameOutcome (a.createDirectory p) (b.createDirectory p) := by
  unfold FileSystem.createDirectory
  rw [h.workingDirectory]
  simp only [h.shape.walk]
  split
  · exact ⟨rfl, h⟩
  · rw [h.lookup]
    split
    · exact ⟨rfl, h⟩
    · exact ⟨rfl, h.put _ _⟩

theorem SameFiles.ensureDirectory (h : SameFiles a b) (p : Path) :
    SameOutcome (a.ensureDirectory p) (b.ensureDirectory p) := by
  obtain ⟨answer, a', b', ha, hb, h'⟩ := (h.createDirectory p).cases
  unfold FileSystem.ensureDirectory
  rw [ha, hb]
  cases answer with
  | ok u => exact ⟨rfl, h'⟩
  | error e =>
    dsimp only
    rw [h'.shape.isDirectory]
    split <;> exact ⟨rfl, h'⟩

theorem SameFiles.createUpwards (h : SameFiles a b) (n : Nat) (p : Path) :
    SameOutcome (a.createUpwards n p) (b.createUpwards n p) := by
  induction n generalizing a b p with
  | zero => exact h.ensureDirectory p
  | succ n ih =>
    obtain ⟨answer, a', b', ha, hb, h'⟩ := (h.ensureDirectory p).cases
    unfold FileSystem.createUpwards
    rw [ha, hb]
    split
    · next heq =>
      cases heq
      cases p.parent with
      | none => exact ⟨rfl, h'⟩
      | some above =>
        dsimp only
        split
        · exact h'.ensureDirectory p
        · obtain ⟨answer, a'', b'', ha', hb', h''⟩ := (ih h' above).cases
          rw [ha', hb']
          cases answer with
          | error e => exact ⟨rfl, h''⟩
          | ok u => exact h''.ensureDirectory p
    · next hother =>
      split
      · next heq =>
        cases heq
        exact absurd rfl (hother _)
      · exact ⟨rfl, h'⟩

theorem SameFiles.createDirectories (h : SameFiles a b) (p : Path) :
    SameOutcome (a.createDirectories p) (b.createDirectories p) := by
  unfold FileSystem.createDirectories
  split
  · exact ⟨rfl, h⟩
  · exact h.createUpwards _ p

end StableWheel.FileSystem
