import StableWheel.Proofs.FileSystem.Within

/-! The bytes of files.

`bytesAt` looks at a place and `bytesOf` at what a path leads to. New directories change
neither; a file that is put somewhere changes the bytes of that place alone. -/
namespace StableWheel.FileSystem

/-- The bytes of the file at a place. -/
def bytesAt (fs : FileSystem) (place : Location) : Option ByteArray :=
  match fs.lookup place with
  | some (.file f) => some f.content.bytes
  | _ => none

/-- The bytes of the file that a path leads to. -/
def bytesOf (fs : FileSystem) (p : Path) : Option ByteArray :=
  match fs.status p with
  | .ok (.file f) => some f.content.bytes
  | _ => none

theorem bytesAt_file {fs : FileSystem} {place : Location} {f : File}
    (h : fs.lookup place = some (.file f)) : fs.bytesAt place = some f.content.bytes := by
  rw [bytesAt, h]

theorem bytesAt_congr {a b : FileSystem} {place : Location}
    (h : a.lookup place = b.lookup place) : a.bytesAt place = b.bytesAt place := by
  rw [bytesAt, bytesAt, h]

theorem bytesOf_resolved {fs : FileSystem} {p : Path} {place : Location}
    (h : fs.resolve p .followed = .ok place) : fs.bytesOf p = fs.bytesAt place := by
  unfold bytesOf bytesAt status find
  rw [h]
  cases hl : fs.lookup place with
  | none =>
    simp only [bind, Except.bind, hl]
    rfl
  | some n => cases n <;> simp only [bind, Except.bind, hl] <;> rfl

theorem bytesAt_put (fs : FileSystem) {place : Location} (f : File) (other : Location)
    (h : place ≠ []) : (fs.put place (.file f)).bytesAt other =
      if other = place then some f.content.bytes else fs.bytesAt other := by
  by_cases ho : other = place
  · rw [if_pos ho, ho, bytesAt_file (lookup_put_self fs place (.file f) h)]
  · rw [if_neg ho, bytesAt, lookup_put_of_ne fs place other (.file f) ho, bytesAt]

/-! ### Directories -/

theorem createDirectory_bytesAt (fs : FileSystem) (p : Path) :
    (fs.createDirectory p).2.bytesAt = fs.bytesAt := by
  rcases createDirectory_cases fs p with hsame | ⟨place, -, hnone, hput⟩
  · rw [hsame]
  · funext other
    rw [hput]
    by_cases ho : other = place
    · have hroot : place ≠ [] := ne_root (by rw [hnone]; simp)
      rw [ho, bytesAt, lookup_put_self fs place .directory hroot, bytesAt, hnone]
    · rw [bytesAt, lookup_put_of_ne fs place other .directory ho, bytesAt]

theorem createDirectories_bytesAt (fs : FileSystem) (p : Path) :
    (fs.createDirectories p).2.bytesAt = fs.bytesAt :=
  createDirectories_moves (R := fun before after => after.bytesAt = before.bytesAt)
    ⟨fun _ => rfl, fun h h' => h'.trans h⟩ createDirectory_bytesAt fs p

/-- A file with bytes is an entry of its own. -/
theorem mem_entries_of_bytesAt {fs : FileSystem} {place : Location} {b : ByteArray}
    (h : fs.bytesAt place = some b) :
    ∃ f, fs.lookup place = some (.file f) ∧ f.content.bytes = b ∧
      (place, .file f) ∈ fs.entries := by
  rw [bytesAt] at h
  rcases hl : fs.lookup place with _ | (f | _ | _)
  · rw [hl] at h
    cases h
  · rw [hl] at h
    refine ⟨f, rfl, Option.some.inj h, ?_⟩
    have hroot : place ≠ [] := ne_root (by rw [hl]; simp)
    rw [lookup, if_neg hroot] at hl
    obtain ⟨before, after, heq, -⟩ := List.lookup_eq_some_iff.mp hl
    rw [heq]
    simp
  · rw [hl] at h
    cases h
  · rw [hl] at h
    cases h

theorem bytesAt_within {part whole : FileSystem} (h : Within part whole) {place : Location}
    {b : ByteArray} (hb : part.bytesAt place = some b) : whole.bytesAt place = some b := by
  obtain ⟨f, hl, rfl, -⟩ := mem_entries_of_bytesAt hb
  exact bytesAt_file (h.lookup place _ hl)

end StableWheel.FileSystem
