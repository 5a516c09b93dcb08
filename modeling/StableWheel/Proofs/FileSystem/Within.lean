import StableWheel.Proofs.FileSystem.Change

/-! What removing files leaves.

Removing takes entries away and adds none, so a path that leads somewhere afterwards led to the
same place before (`find_within`). New directories are the other way round. Once a path names
neither a file nor a link, further removals cannot change that (`Bare.within`). A removal that the
system refuses leaves everything as it was. -/
namespace StableWheel.FileSystem

/-- A part of the files: whatever is there is there in all of them. -/
structure Within (part whole : FileSystem) : Prop where
  workingDirectory : part.workingDirectory = whole.workingDirectory
  lookup : ∀ place n, part.lookup place = some n → whole.lookup place = some n

theorem Within.refl (fs : FileSystem) : Within fs fs := ⟨rfl, fun _ _ h => h⟩

theorem Within.trans {a b c : FileSystem} (h : Within a b) (h' : Within b c) : Within a c :=
  ⟨h.workingDirectory.trans h'.workingDirectory,
    fun place n hn => h'.lookup place n (h.lookup place n hn)⟩

theorem remove_within (fs : FileSystem) (place : Location) : Within (fs.remove place) fs := by
  refine ⟨rfl, fun other n h => ?_⟩
  by_cases ho : other = place
  · subst ho
    by_cases hr : other = []
    · subst hr
      exact h
    · rw [lookup_remove_self fs other hr] at h
      cases h
  · rwa [lookup_remove_of_ne fs place other ho] at h

theorem put_within {fs : FileSystem} {place : Location} (h : fs.lookup place = none) (n : Entry) :
    Within fs (fs.put place n) := by
  refine ⟨rfl, fun other m hm => ?_⟩
  rw [lookup_put_of_ne fs place other n, hm]
  rintro rfl
  rw [h] at hm
  cases hm

theorem createDirectories_within (fs : FileSystem) (p : Path) :
    Within fs (fs.createDirectories p).2 := by
  refine createDirectories_moves ⟨.refl, .trans⟩ (fun fs p => ?_) fs p
  rcases createDirectory_cases fs p with hsame | ⟨place, -, hnone, hput⟩
  · rw [hsame]
    exact .refl fs
  · rw [hput]
    exact put_within hnone .directory

variable {part whole : FileSystem} {ending : Ending} {p : Path} {place : Location} {n : Entry}

/-- A walk that ends where something is meets nothing that the whole does not have. -/
theorem walk_within (h : Within part whole) {links : Nat} {start found : Location}
    {steps : List Step} (hw : Walk part ending links start steps found)
    (hn : part.lookup found = some n) : Walk whole ending links start steps found := by
  induction hw with
  | here => exact .here
  | stay _ ih => exact .stay (ih hn)
  | inside _ ih => exact .inside (ih hn)
  | up _ ih => exact .up (ih hn)
  | directory hp hl _ ih => exact .directory hp (h.lookup _ _ hl) (ih hn)
  | nothing _ hl => rw [hl] at hn; cases hn
  | file hp hl => exact .file hp (h.lookup _ _ hl)
  | kept hp hl hk => exact .kept hp (h.lookup _ _ hl) hk
  | followed hp hl hk _ ih => exact .followed hp (h.lookup _ _ hl) hk (ih hn)

theorem find_within (h : Within part whole) (hf : part.find p ending = .ok (place, n)) :
    whole.find p ending = .ok (place, n) := by
  obtain ⟨hr, hn⟩ := find_iff.mp hf
  obtain ⟨hp, hw⟩ := resolve_iff.mp hr
  rw [h.workingDirectory] at hw
  exact find_iff.mpr ⟨resolve_iff.mpr ⟨hp, walk_within h hw hn⟩, h.lookup place n hn⟩

/-! ### Paths that name no file -/

/-- There is neither a file nor a link at a path. -/
def Bare (fs : FileSystem) (p : Path) : Prop :=
  ∀ place n, fs.find p .kept = .ok (place, n) → n = .directory

theorem Bare.within (hb : Bare whole p) (h : Within part whole) : Bare part p :=
  fun place n hf => hb place n (find_within h hf)

/-- There is a file or a link at a path, and the system refuses to remove it. -/
def Refused (refusals : Refusals) (fs : FileSystem) (p : Path) : Prop :=
  ∃ place n e, fs.find p .kept = .ok (place, n) ∧ n ≠ .directory ∧ refusals fs place = some e

/-- A removal that goes through empties the place that the path names; any other one changes
nothing. -/
theorem removeFile_cases (refusals : Refusals) (fs : FileSystem) (p : Path) :
    (∃ place n, fs.find p .kept = .ok (place, n) ∧ n ≠ .directory ∧
        refusals fs place = none ∧ fs.removeFile refusals p = (.ok (), fs.remove place)) ∨
      (Bare fs p ∨ Refused refusals fs p) ∧
        ∃ e, fs.removeFile refusals p = (.error e, fs) := by
  rcases hf : fs.find p .kept with e | ⟨place, n⟩
  · refine .inr ⟨.inl fun place n hn => ?_, e, by rw [removeFile, hf]⟩
    rw [hf] at hn
    cases hn
  by_cases hn : n = .directory
  · subst hn
    refine .inr ⟨.inl fun other m hm => ?_, .os .isDirectory, by rw [removeFile, hf]⟩
    rw [hf] at hm
    cases hm
    rfl
  cases hr : refusals fs place with
  | none =>
    refine .inl ⟨place, n, rfl, hn, hr, ?_⟩
    cases n with
    | directory => exact absurd rfl hn
    | _ => simp only [removeFile, hf, hr]
  | some e =>
    refine .inr ⟨.inr ⟨place, n, e, hf, hn, hr⟩, .os e, ?_⟩
    cases n with
    | directory => exact absurd rfl hn
    | _ => simp only [removeFile, hf, hr]

theorem removeFile_within {refusals : Refusals} (fs : FileSystem) (p : Path) :
    Within (fs.removeFile refusals p).2 fs := by
  rcases removeFile_cases refusals fs p with ⟨place, n, -, -, -, ho⟩ | ⟨-, e, ho⟩ <;> rw [ho]
  · exact remove_within fs place
  · exact .refl fs

/-- Nothing is left at a path whose removal is not refused. -/
theorem removeFile_bare (refusals : Refusals) (fs : FileSystem) (p : Path) :
    Bare (fs.removeFile refusals p).2 p ∨ Refused refusals fs p := by
  rcases removeFile_cases refusals fs p with
    ⟨place, n, hf, hn, -, ho⟩ | ⟨hbare | hrefused, e, ho⟩
  · refine .inl fun other m hm => ?_
    -- the place was emptied, so nothing can be found there any more
    have hsame := find_within (removeFile_within fs p) hm
    rw [hf] at hsame
    cases hsame
    obtain ⟨-, hl⟩ := find_iff.mp hm
    rw [ho, lookup_remove_self fs place (ne_root (by rw [(find_iff.mp hf).2]; simpa using hn))] at hl
    cases hl
  · exact .inl (by rw [ho]; exact hbare)
  · exact .inr hrefused

/-- A removal touches nothing but the place that the path names. -/
theorem lookup_removeFile (refusals : Refusals) (fs : FileSystem) (p : Path) (place : Location) :
    (fs.removeFile refusals p).2.lookup place = fs.lookup place ∨
      (fs.removeFile refusals p).2.lookup place = none ∧
        ∃ n, fs.find p .kept = .ok (place, n) ∧ n ≠ .directory := by
  rcases removeFile_cases refusals fs p with ⟨found, n, hf, hn, -, ho⟩ | ⟨-, e, ho⟩ <;> rw [ho]
  · by_cases hp : place = found
    · subst hp
      have hroot : place ≠ [] := ne_root (by rw [(find_iff.mp hf).2]; simpa using hn)
      exact .inr ⟨lookup_remove_self fs place hroot, n, hf, hn⟩
    · exact .inl (lookup_remove_of_ne fs found place hp)
  · exact .inl rfl

end StableWheel.FileSystem
