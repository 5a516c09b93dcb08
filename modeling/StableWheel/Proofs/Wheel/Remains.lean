import StableWheel.Proofs.FileSystem.Making
import StableWheel.Proofs.Wheel.Members

/-! What packing leaves behind.

While the archive grows, its temporary file is the only place that changes (`fill_rewrites`), and
in the end that file is either removed or moved to where the wheel is to be. `Wheel.Packs` has one
constructor for each way to end, and `pack_spares` says what they come to: a wheel that cannot be
packed leaves nothing but directories, and one that can be packed is the only file that is new. -/
namespace StableWheel
open FileSystem

/-! ### One file that is written -/

/-- All that happens is that the file at a place is rewritten. -/
structure Rewrites (place : Location) (before after : FileSystem) : Prop where
  workingDirectory : after.workingDirectory = before.workingDirectory
  others : ∀ other, other ≠ place → after.lookup other = before.lookup other
  file : ∀ f, before.lookup place = some (.file f) → ∃ f', after.lookup place = some (.file f')

theorem rewrites_composes (place : Location) : Composes (Rewrites place) where
  refl fs := ⟨rfl, fun _ _ => rfl, fun f hf => ⟨f, hf⟩⟩
  trans h h' := by
    refine ⟨h'.workingDirectory.trans h.workingDirectory,
      fun other ho => (h'.others other ho).trans (h.others other ho), fun f hf => ?_⟩
    obtain ⟨f', hf'⟩ := h.file f hf
    exact h'.file f' hf'

theorem put_rewrites {place : Location} (hroot : place ≠ []) (f : File) (fs : FileSystem) :
    Rewrites place fs (fs.put place (.file f)) :=
  ⟨rfl, fun other ho => lookup_put_of_ne fs place other _ ho,
    fun _ _ => ⟨f, lookup_put_self fs place _ hroot⟩⟩

/-- A file where there was nothing. -/
structure Hides (place : Location) (before after : FileSystem) : Prop where
  nothing : before.lookup place = none
  file : ∃ f, after.lookup place = some (.file f)
  workingDirectory : after.workingDirectory = before.workingDirectory
  others : ∀ other, other ≠ place → after.lookup other = before.lookup other

/-- A file ends a walk or fails it, so without it the walk goes where it went. -/
theorem Hides.walk {place : Location} {before after : FileSystem} (h : Hides place before after)
    {ending : Ending} {links : Nat} {start found : Location} {steps : List Step}
    (hw : Walk after ending links start steps found) :
    Walk before ending links start steps found := by
  obtain ⟨f, hf⟩ := h.file
  -- whatever is no file was there before
  have hold : ∀ {next n}, (∀ f', n ≠ .file f') → after.lookup next = some n →
      before.lookup next = some n := by
    intro next n hn hl
    rw [← h.others next, hl]
    rintro rfl
    rw [hf] at hl
    cases hl
    exact hn f rfl
  induction hw with
  | here => exact .here
  | stay _ ih => exact .stay ih
  | inside _ ih => exact .inside ih
  | up _ ih => exact .up ih
  | directory hp hl _ ih => exact .directory hp (hold (by simp) hl) ih
  | @nothing _ above name hp hl =>
    refine .nothing hp ?_
    rw [← h.others _, hl]
    intro heq
    rw [heq, hf] at hl
    cases hl
  | @file _ above name f' hp hl =>
    by_cases hnext : above ++ [name] = place
    · exact .nothing hp (hnext ▸ h.nothing)
    · exact .file hp ((h.others _ hnext).symm.trans hl)
  | kept hp hl hk => exact .kept hp (hold (by simp) hl) hk
  | followed hp hl hk _ ih => exact .followed hp (hold (by simp) hl) hk ih

theorem Hides.resolve {place : Location} {before after : FileSystem}
    (h : Hides place before after) {p : Path} {ending : Ending} {found : Location}
    (hr : after.resolve p ending = .ok found) : before.resolve p ending = .ok found := by
  obtain ⟨hc, hw⟩ := resolve_iff.mp hr
  rw [h.workingDirectory] at hw
  exact resolve_iff.mpr ⟨hc, h.walk hw⟩

/-! ### The ways to end -/

namespace Packing

theorem addStaged_rewrites {temporary : Location} (hroot : temporary ≠ []) (tree : Location)
    (list : List Location) (members : List Archive.Member) :
    Task.Moves (Rewrites temporary) (addStaged temporary tree list members) := by
  have hR := rewrites_composes temporary
  induction list generalizing members with
  | nil => exact .pure hR members
  | cons names rest ih =>
    refine .bind hR (.files hR) fun fs => ?_
    -- whatever is read, what follows is the same
    rcases fs.lookup (tree ++ names) with _ | (f | _ | _) <;>
      refine .bind hR ?_ fun content => .bind hR (.ofExcept hR _) fun members =>
        .bind hR (.onFiles (put_rewrites hroot _)) fun _ => ih members
    · exact .throw hR _
    · exact .pure hR _
    · exact .throw hR _
    · exact .throw hR _

theorem fill_rewrites {temporary : Location} (hroot : temporary ≠ []) (w : Wheel)
    (staging : Path) : Task.Moves (Rewrites temporary) (fill w temporary staging) := by
  have hR := rewrites_composes temporary
  refine .bind hR (.files hR) fun fs => .bind hR (.ofExcept hR _) fun tree => ?_
  cases tree with
  | none => exact .bind hR (.pure hR _) fun staged => .ofExcept hR _
  | some place =>
    refine .bind hR (.files hR) fun fs => ?_
    exact .bind hR (addStaged_rewrites hroot place _ _) fun staged => .ofExcept hR _

/-- An empty temporary file, in the place that its directory's path leads to. -/
structure Begun (fs : FileSystem) (dist : Path) (room : Location) (name : String)
    (started : Session) : Prop where
  leads : (fs.createDirectories dist).2.resolve dist .followed = .ok room
  named : ∃ n, name = temporaryName n
  fresh : (fs.createDirectories dist).2.lookup (room ++ [name]) = none
  files : started.files = (fs.createDirectories dist).2.put (room ++ [name])
    (.file (archiveFile []))

end Packing

/-- What packing can come to, and the files that it leaves. -/
inductive Wheel.Packs (w : Wheel) (staging dist : Path) (fs : FileSystem) :
    Except WheelError Path → FileSystem → Prop where
  /-- The directory cannot be created, or no temporary file in it. -/
  | refused {e} : Packs w staging dist fs (.error e) (fs.createDirectories dist).2
  /-- The archive cannot be finished or moved, and the temporary file is removed. -/
  | undone {room name started r filled e} : Packing.Begun fs dist room name started →
      (Packing.fill w (room ++ [name]) staging).run started = (r, filled) →
      Packs w staging dist fs (.error e) (filled.files.remove (room ++ [name]))
  /-- The archive is moved to where the path of the wheel leads. -/
  | done {room name started members filled wheel place} :
      Packing.Begun fs dist room name started →
      (Packing.fill w (room ++ [name]) staging).run started = (.ok members, filled) →
      wheel = dist.join ⟨w.fileName⟩ → filled.files.resolve wheel .kept = .ok place →
      filled.files.lookup place ≠ some .directory →
      Packs w staging dist fs (.ok wheel)
        ((filled.files.remove (room ++ [name])).put place (.file (Packing.archiveFile members)))

theorem Wheel.pack_packs (w : Wheel) (staging dist : Path) (s : Session) :
    w.Packs staging dist s.files ((w.pack staging dist).run s).1
      ((w.pack staging dist).run s).2.files := by
  rw [pack, Task.run_bind, Task.run_onFiles]
  rcases hdirs : s.files.createDirectories dist with ⟨_ | _, made⟩
  · have hmade : made = (s.files.createDirectories dist).2 := by rw [hdirs]
    rw [hmade]
    exact .refused
  have hmade : made = (s.files.createDirectories dist).2 := by rw [hdirs]
  dsimp only [Except.mapError]
  rw [Task.run_bind, Task.run_onFiles]
  rcases Packing.createTemporary_cases made dist with
    ⟨e, hnone⟩ | ⟨room, name, hleads, hnamed, hfresh, hput⟩
  · dsimp only
    rw [hnone, hmade]
    exact .refused
  dsimp only
  rw [hput]
  dsimp only [Except.mapError]
  rw [Task.run_bind, Packing.cleaningUp, Task.run_ofRun]
  have hbegun : Packing.Begun s.files dist room name
      { s with files := made.put (room ++ [name]) (.file (Packing.archiveFile [])) } := by
    subst hmade
    exact ⟨hleads, hnamed, hfresh, rfl⟩
  rw [Task.run_bind]
  rcases hfill : (Packing.fill w (room ++ [name]) staging).run
    { s with files := made.put (room ++ [name]) (.file (Packing.archiveFile [])) } with
    ⟨_ | members, filled⟩
  · exact .undone hbegun hfill
  · dsimp only
    rw [Task.run_onFiles]
    rcases Packing.moveFile_cases filled.files (room ++ [name]) (Packing.archiveFile members)
      (dist.join ⟨w.fileName⟩) with ⟨e, hmove⟩ | ⟨place, hplace, hfree, hmove⟩
    · rw [hmove]
      exact .undone hbegun hfill
    · rw [hmove]
      exact .done hbegun hfill rfl hplace hfree

/-! ### What is left -/

namespace Packing
variable {fs : FileSystem} {dist : Path} {room : Location} {name : String}
  {started filled : Session}

/-- Beside the directories that were made, there is only the temporary file. -/
theorem Begun.hides {w : Wheel} {staging : Path} {r : Except WheelError (List Archive.Member)}
    (h : Begun fs dist room name started)
    (hfill : (fill w (room ++ [name]) staging).run started = (r, filled)) :
    Hides (room ++ [name]) (fs.createDirectories dist).2 filled.files := by
  have hroot : room ++ [name] ≠ [] := by simp
  have hfilled := fill_rewrites hroot w staging started
  rw [hfill] at hfilled
  have hstarted := put_rewrites hroot (archiveFile []) (fs.createDirectories dist).2
  rw [← h.files] at hstarted
  have hall := (rewrites_composes _).trans hstarted hfilled
  refine ⟨h.fresh, hfilled.file (archiveFile []) ?_, hall.workingDirectory, hall.others⟩
  rw [h.files, lookup_put_self _ _ _ hroot]

end Packing

/-- All that was there is there still, but for what may have been written over, and all that is
new is a directory on the way to a path. -/
structure Spares (path : Path) (replaced : Location → Prop) (before after : FileSystem) : Prop where
  workingDirectory : after.workingDirectory = before.workingDirectory
  kept : ∀ place n, ¬ replaced place → before.lookup place = some n → after.lookup place = some n
  made : ∀ place n, ¬ replaced place → before.lookup place = none → after.lookup place = some n →
    n = .directory ∧ ∃ above, Above above path ∧
      (before.createDirectories path).2.find above .followed = .ok (place, .directory)

theorem spares_of_makes {path : Path} {replaced : Location → Prop} {before after : FileSystem}
    (hw : after.workingDirectory = (before.createDirectories path).2.workingDirectory)
    (h : ∀ place, ¬ replaced place →
      after.lookup place = (before.createDirectories path).2.lookup place) :
    Spares path replaced before after := by
  have hmakes := createDirectories_makes before path
  refine ⟨hw.trans hmakes.kept.workingDirectory.symm, fun place n ho hl => ?_,
    fun place n ho hnone hl => ?_⟩
  · rw [h place ho]
    exact hmakes.kept.lookup place n hl
  · rw [h place ho] at hl
    exact hmakes.made place n hnone hl

/-- Once the temporary file is gone, there are the files that there were and the directories. -/
theorem Hides.lookup_remove {place : Location} {before after : FileSystem} (hroot : place ≠ [])
    (h : Hides place before after) (other : Location) :
    (after.remove place).lookup other = before.lookup other := by
  by_cases ho : other = place
  · rw [ho, lookup_remove_self _ _ hroot, h.nothing]
  · rw [lookup_remove_of_ne _ _ _ ho, h.others other ho]

namespace Wheel.Packs
variable {w : Wheel} {staging dist : Path} {fs after : FileSystem}

theorem path {wheel : Path} (h : w.Packs staging dist fs (.ok wheel) after) :
    wheel = dist.join ⟨w.fileName⟩ := by
  cases h with
  | done _ _ hpath => exact hpath

theorem spares_of_error {e : WheelError} (h : w.Packs staging dist fs (.error e) after) :
    Spares dist (fun _ => False) fs after := by
  cases h with
  | refused => exact spares_of_makes rfl fun _ _ => rfl
  | undone hbegun hfill =>
    have hhides := hbegun.hides hfill
    exact spares_of_makes hhides.workingDirectory fun place _ =>
      hhides.lookup_remove (by simp) place

theorem spares_of_ok {wheel : Path} (h : w.Packs staging dist fs (.ok wheel) after) :
    ∃ place f, (fs.createDirectories dist).2.resolve wheel .kept = .ok place ∧
      fs.lookup place ≠ some .directory ∧ after.lookup place = some (.file f) ∧
      Spares dist (· = place) fs after := by
  cases h with
  | @done room name started members filled _ place hbegun hfill _ hplace hfree =>
    have hhides := hbegun.hides hfill
    refine ⟨place, _, hhides.resolve hplace, fun hdirectory => hfree ?_,
      lookup_put_self _ _ _ (ne_root hfree), ?_⟩
    · have hmade := (createDirectories_makes fs dist).kept.lookup place _ hdirectory
      rwa [hhides.others place]
      rintro rfl
      rw [hbegun.fresh] at hmade
      cases hmade
    · refine spares_of_makes hhides.workingDirectory fun other ho => ?_
      rw [lookup_put_of_ne _ _ _ _ ho]
      exact hhides.lookup_remove (by simp) other

end Wheel.Packs

/-- A wheel is named in the directory that it is packed into. -/
theorem Wheel.pack_path {w : Wheel} {staging dist wheel : Path} {s s' : Session}
    (h : (w.pack staging dist).run s = (.ok wheel, s')) : wheel = dist.join ⟨w.fileName⟩ := by
  have hpacks := w.pack_packs staging dist s
  rw [h] at hpacks
  exact hpacks.path

/-- **Packing leaves a wheel or nothing.** Wherever it fails, everything is as it was, an older
wheel of the same name included, and nothing is new but directories on the way to the one that the
wheel was for. If it goes well, the place that the path of the wheel led to holds a file, and that
file is the only one that is new or changed. -/
theorem pack_spares (w : Wheel) (staging dist : Path) (s : Session) :
    match (w.pack staging dist).run s with
    | (.error _, s') => Spares dist (fun _ => False) s.files s'.files
    | (.ok wheel, s') => ∃ place f,
        (s.files.createDirectories dist).2.resolve wheel .kept = .ok place ∧
        s.files.lookup place ≠ some .directory ∧ s'.files.lookup place = some (.file f) ∧
        Spares dist (· = place) s.files s'.files := by
  have hpacks := w.pack_packs staging dist s
  rcases hrun : (w.pack staging dist).run s with ⟨e | wheel, s'⟩
  · rw [hrun] at hpacks
    exact hpacks.spares_of_error
  · rw [hrun] at hpacks
    exact hpacks.spares_of_ok

end StableWheel
