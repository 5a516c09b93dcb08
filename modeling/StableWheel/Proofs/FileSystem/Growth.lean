import StableWheel.Proofs.FileSystem.Tree

/-! File systems that grow.

Directories, links and files stay what they are, files may be rewritten, and where nothing was
there may be directories and files now. Every path then leads where it led before
(`Grows.resolve`). Creating directories and writing files makes a tree grow. -/
namespace StableWheel.FileSystem

/-- Nothing is gone, and there is no new link. -/
structure Grows (before after : FileSystem) : Prop where
  workingDirectory : after.workingDirectory = before.workingDirectory
  directory : ∀ place, before.lookup place = some .directory →
    after.lookup place = some .directory
  link : ∀ place target, before.lookup place = some (.link target) →
    after.lookup place = some (.link target)
  file : ∀ place f, before.lookup place = some (.file f) →
    ∃ f', after.lookup place = some (.file f')
  nothing : ∀ place target, before.lookup place = none →
    after.lookup place ≠ some (.link target)

theorem Grows.refl (fs : FileSystem) : Grows fs fs :=
  ⟨rfl, fun _ h => h, fun _ _ h => h, fun _ f h => ⟨f, h⟩, fun _ _ h => by rw [h]; simp⟩

theorem Grows.trans {a b c : FileSystem} (h : Grows a b) (h' : Grows b c) : Grows a c where
  workingDirectory := h'.workingDirectory.trans h.workingDirectory
  directory place hp := h'.directory place (h.directory place hp)
  link place target hp := h'.link place target (h.link place target hp)
  file place f hp := by
    obtain ⟨f', hf⟩ := h.file place f hp
    exact h'.file place f' hf
  nothing place target hp := by
    have hnone := h.nothing place target hp
    rcases hb : b.lookup place with _ | (f | _ | other)
    · exact h'.nothing place target hb
    · obtain ⟨f', hf⟩ := h'.file place f hb
      rw [hf]
      simp
    · rw [h'.directory place hb]
      simp
    · rw [h'.link place other hb, ← hb]
      exact hnone

theorem grows_composes : Composes Grows := ⟨.refl, .trans⟩

/-- The only thing that may be put anywhere without harm is a file where no directory and no
link is, or a directory where nothing is. -/
theorem put_grows {fs : FileSystem} {place : Location} {n : Entry} (hroot : place ≠ [])
    (hn : ∀ target, n ≠ .link target)
    (h : fs.lookup place = none ∨
      ∃ f f', fs.lookup place = some (.file f) ∧ n = .file f') : Grows fs (fs.put place n) := by
  have hput := lookup_put fs place n
  refine ⟨rfl, ?_, ?_, ?_, ?_⟩
  · intro other ho
    rw [hput other hroot, if_neg, ho]
    rintro rfl
    rw [ho] at h
    simp at h
  · intro other target ho
    rw [hput other hroot, if_neg, ho]
    rintro rfl
    rw [ho] at h
    simp at h
  · intro other f ho
    rw [hput other hroot]
    split
    · next heq =>
      subst heq
      rcases h with h | ⟨-, f', -, rfl⟩
      · rw [ho] at h
        cases h
      · exact ⟨f', rfl⟩
    · exact ⟨f, ho⟩
  · intro other target ho
    rw [hput other hroot]
    split
    · simpa using hn target
    · rw [ho]
      simp

/-! ### Paths -/

variable {before after : FileSystem} {ending : Ending} {p : Path} {place : Location}

theorem Walk.grows (h : Grows before after) {links : Nat} {start found : Location}
    {steps : List Step} (hw : Walk before ending links start steps found) :
    Walk after ending links start steps found := by
  induction hw with
  | here => exact .here
  | stay _ ih => exact .stay ih
  | inside _ ih => exact .inside ih
  | up _ ih => exact .up ih
  | directory hp hl _ ih => exact .directory hp (h.directory _ hl) ih
  | nothing hp hl =>
    rcases ha : after.lookup _ with _ | (f | _ | target)
    · exact .nothing hp ha
    · exact .file hp ha
    · exact .directory hp ha .here
    · exact absurd ha (h.nothing _ target hl)
  | file hp hl =>
    obtain ⟨f', hf⟩ := h.file _ _ hl
    exact .file hp hf
  | kept hp hl hk => exact .kept hp (h.link _ _ hl) hk
  | followed hp hl hk _ ih => exact .followed hp (h.link _ _ hl) hk ih

theorem Grows.resolve (h : Grows before after) (hr : before.resolve p ending = .ok place) :
    after.resolve p ending = .ok place := by
  obtain ⟨hc, hw⟩ := resolve_iff.mp hr
  rw [resolve_iff, h.workingDirectory]
  exact ⟨hc, hw.grows h⟩

theorem Grows.find_directory (h : Grows before after)
    (hf : before.find p ending = .ok (place, .directory)) :
    after.find p ending = .ok (place, .directory) := by
  obtain ⟨hr, hl⟩ := find_iff.mp hf
  exact find_iff.mpr ⟨h.resolve hr, h.directory place hl⟩

theorem Grows.find_link (h : Grows before after) {target : Path}
    (hf : before.find p ending = .ok (place, .link target)) :
    after.find p ending = .ok (place, .link target) := by
  obtain ⟨hr, hl⟩ := find_iff.mp hf
  exact find_iff.mpr ⟨h.resolve hr, h.link place target hl⟩

theorem Grows.find_file (h : Grows before after) {f : File}
    (hf : before.find p ending = .ok (place, .file f)) :
    ∃ f', after.find p ending = .ok (place, .file f') := by
  obtain ⟨hr, hl⟩ := find_iff.mp hf
  obtain ⟨f', hf'⟩ := h.file place f hl
  exact ⟨f', find_iff.mpr ⟨h.resolve hr, hf'⟩⟩

/-- Where a file is written, it is read. -/
theorem Walk.followed_of_written {fs : FileSystem} {links : Nat} {start found : Location}
    {steps : List Step} (hw : Walk fs .written links start steps found) :
    Walk fs .followed links start steps found := by
  have hpass : ∀ {name rest}, Passable .written name rest → Passable .followed name rest :=
    fun hp => ⟨by simp, hp.2⟩
  induction hw with
  | here => exact .here
  | stay _ ih => exact .stay ih
  | inside _ ih => exact .inside ih
  | up _ ih => exact .up ih
  | directory hp hl _ ih => exact .directory (hpass hp) hl ih
  | nothing hp hl => exact .nothing (hpass hp) hl
  | file hp hl => exact .file (hpass hp) hl
  | kept _ _ hk => cases hk
  | followed hp hl _ _ ih => exact .followed (hpass hp) hl (by simp) ih

theorem resolve_followed_of_written {fs : FileSystem}
    (hr : fs.resolve p .written = .ok place) : fs.resolve p .followed = .ok place := by
  obtain ⟨hc, hw⟩ := resolve_iff.mp hr
  exact resolve_iff.mpr ⟨hc, hw.followed_of_written⟩

/-! ### Operations -/

theorem createDirectory_grows (fs : FileSystem) (p : Path) :
    Grows fs (fs.createDirectory p).2 := by
  rcases createDirectory_cases fs p with hsame | ⟨place, -, hnone, hput⟩
  · rw [hsame]
    exact .refl fs
  · rw [hput]
    exact put_grows (ne_root (by rw [hnone]; simp)) (by simp) (.inl hnone)

theorem createDirectories_grows (fs : FileSystem) (p : Path) :
    Grows fs (fs.createDirectories p).2 :=
  createDirectories_moves grows_composes createDirectory_grows fs p

/-- A file that is written to a place where a path ends. -/
theorem put_file_grows {fs : FileSystem} (h : IsTree fs)
    (hr : fs.resolve p .written = .ok place) (hn : fs.lookup place ≠ some .directory)
    (f : File) : Grows fs (fs.put place (.file f)) := by
  refine put_grows (ne_root hn) (by simp) ?_
  have hplain := (h.lands hr).plain (by simp)
  rcases hl : fs.lookup place with _ | (f' | _ | target)
  · exact .inl rfl
  · exact .inr ⟨f', f, rfl, rfl⟩
  · exact absurd hl hn
  · exact absurd hl (hplain target)

end StableWheel.FileSystem
