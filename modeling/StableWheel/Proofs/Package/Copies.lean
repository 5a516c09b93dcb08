import StableWheel.Package.Staging
import StableWheel.Proofs.FileSystem.Bytes
import StableWheel.Proofs.FileSystem.Growth
import StableWheel.Proofs.Session.Effects

/-! The copies that staging makes.

Staging goes through rounds: one for the modules of a package, one for each pattern of its data
files. A round selects files among those that are there when its turn comes and copies them one
after the other. When staging goes well, what it did is a list of copies (`stage_ok`), and
copies are all that happened to the bytes of any file (`Copies.bytesAt`). -/
namespace StableWheel.PackageLayout

/-- What holds of new directories holds of the room for a file. -/
theorem makeRoom_moves {R : FileSystem → FileSystem → Prop} (hrefl : ∀ fs, R fs fs)
    (h : ∀ fs p, R fs (fs.createDirectories p).2) (fs : FileSystem) (target : Path) :
    R fs (makeRoom fs target).2 := by
  unfold makeRoom
  split
  · exact hrefl fs
  · exact h fs _

theorem makeRoom_bytesAt {fs room : FileSystem} {target : Path}
    (h : makeRoom fs target = (.ok (), room)) : room.bytesAt = fs.bytesAt := by
  have hbytes := makeRoom_moves (R := fun before after => after.bytesAt = before.bytesAt)
    (fun _ => rfl) FileSystem.createDirectories_bytesAt fs target
  rwa [h] at hbytes

theorem makeRoom_keepsTree {fs room : FileSystem} {target : Path}
    (h : makeRoom fs target = (.ok (), room)) (ht : fs.IsTree) : room.IsTree := by
  have htree := makeRoom_moves (fun _ h => h) FileSystem.createDirectories_keepsTree fs target ht
  rwa [h] at htree

/-! ### One copy -/

/-- A copy that was made: of which file, to which path, and where these are. -/
structure Copy where
  source : Path
  target : Path
  origin : Location
  place : Location
  deriving DecidableEq

/-- A copy leads from the one to the other. -/
def Copy.Made (c : Copy) (before after : FileSystem) : Prop :=
  ∃ room f, makeRoom before c.target = (.ok (), room) ∧
    room.find c.source .followed = .ok (c.origin, .file f) ∧
    room.resolve c.target .written = .ok c.place ∧
    room.lookup c.place ≠ some .directory ∧
    after = room.put c.place (.file (FileSystem.leaves f c.origin c.place))

theorem copyInto_ok {directory dest file target : Path} {s s' : Session}
    (h : (copyInto directory dest file).run s = (.ok target, s')) :
    ∃ c : Copy, (c.source, c.target) = (file, targetOf directory dest file) ∧
      c.target = target ∧ c.Made s.files s'.files := by
  rw [copyInto] at h
  obtain ⟨_, s₀, hmake, h₀⟩ := Task.run_bind_ok h
  obtain ⟨_, s₁, hwrite, h₁⟩ := Task.run_bind_ok h₀
  obtain ⟨hroom, hs₀⟩ := Task.run_onFiles_ok hmake
  obtain ⟨hcopy, hs₁⟩ := Task.run_onFiles_ok hwrite
  cases h₁
  rw [hs₁]
  replace hs₀ : s₀.files = (makeRoom s.files (targetOf directory dest file)).2 := by rw [hs₀]
  rcases FileSystem.copy_cases s₀.files file (targetOf directory dest file) with
    ⟨e, hc⟩ | ⟨origin, f, place, hf, hr, hn, hc⟩
  · rw [hc] at hcopy
    cases hcopy
  · refine ⟨⟨file, targetOf directory dest file, origin, place⟩, rfl, rfl, s₀.files, f, ?_,
      hf, hr, hn, ?_⟩
    · exact Prod.ext hroom hs₀.symm
    · show (s₀.files.copy file (targetOf directory dest file)).2 = _
      rw [hc]

section
variable {c : Copy} {before after : FileSystem}

/-- The room for a copy is a tree that grew, and the target can be written there. -/
theorem Copy.Made.room (h : c.Made before after) (ht : before.IsTree) :
    ∃ room f, room.IsTree ∧ FileSystem.Grows before room ∧
      room.resolve c.target .written = .ok c.place ∧
      room.lookup c.place ≠ some .directory ∧ after = room.put c.place (.file f) := by
  obtain ⟨room, f, hroom, -, hr, hn, hafter⟩ := h
  have hgrows := makeRoom_moves .refl FileSystem.createDirectories_grows before c.target
  rw [hroom] at hgrows
  exact ⟨room, _, makeRoom_keepsTree hroom ht, hgrows, hr, hn, hafter⟩

theorem Copy.Made.keepsTree (h : c.Made before after) (ht : before.IsTree) : after.IsTree := by
  obtain ⟨room, f, htree, -, hr, hn, rfl⟩ := h.room ht
  exact (htree.lands hr).put htree hn

theorem Copy.Made.grows (h : c.Made before after) (ht : before.IsTree) :
    FileSystem.Grows before after := by
  obtain ⟨room, f, htree, hgrows, hr, hn, rfl⟩ := h.room ht
  exact hgrows.trans (FileSystem.put_file_grows htree hr hn _)

/-- Where the target was written, it is found. -/
theorem Copy.Made.resolve_target (h : c.Made before after) (ht : before.IsTree) :
    after.resolve c.target .followed = .ok c.place := by
  obtain ⟨room, f, htree, -, hr, hn, rfl⟩ := h.room ht
  exact (FileSystem.put_file_grows htree hr hn _).resolve
    (FileSystem.resolve_followed_of_written hr)

theorem Copy.Made.origin_bytes (h : c.Made before after) :
    ∃ b, before.bytesAt c.origin = some b := by
  obtain ⟨room, f, hroom, hf, -⟩ := h
  rw [← makeRoom_bytesAt hroom]
  exact ⟨_, FileSystem.bytesAt_file (FileSystem.find_iff.mp hf).2⟩

/-- A copy changes the bytes at its place only: to those of its origin, or to nothing if that
is the same place. -/
theorem Copy.Made.bytesAt (h : c.Made before after) (x : Location) :
    after.bytesAt x = if x = c.place then
      if c.place = c.origin then some ByteArray.empty else before.bytesAt c.origin
    else before.bytesAt x := by
  obtain ⟨room, f, hroom, hf, -, hn, rfl⟩ := h
  rw [FileSystem.bytesAt_put room _ x (FileSystem.ne_root hn), ← makeRoom_bytesAt hroom]
  split
  · rw [FileSystem.bytesAt_file (FileSystem.find_iff.mp hf).2]
    unfold FileSystem.leaves
    split <;> rfl
  · rfl

end

/-! ### Copies in order -/

/-- Copies made one after the other lead from the first files to the last. -/
inductive Copies : FileSystem → List Copy → FileSystem → Prop where
  | nil {fs} : Copies fs [] fs
  | cons {c cs before between after} : Copy.Made c before between →
      Copies between cs after → Copies before (c :: cs) after

theorem Copies.append {before between after : FileSystem} {cs cs' : List Copy}
    (h : Copies before cs between) (h' : Copies between cs' after) :
    Copies before (cs ++ cs') after := by
  induction h with
  | nil => exact h'
  | cons hc _ ih => exact .cons hc (ih h')

theorem Copies.keepsTree {before after : FileSystem} {cs : List Copy}
    (h : Copies before cs after) (ht : before.IsTree) : after.IsTree := by
  induction h with
  | nil => exact ht
  | cons hc _ ih => exact ih (hc.keepsTree ht)

theorem Copies.grows {before after : FileSystem} {cs : List Copy} (h : Copies before cs after)
    (ht : before.IsTree) : FileSystem.Grows before after := by
  induction h with
  | nil => exact .refl _
  | cons hc _ ih => exact (hc.grows ht).trans (ih (hc.keepsTree ht))

/-- In the end every target is still found where it was written. -/
theorem Copies.resolve_target {before after : FileSystem} {cs : List Copy}
    (h : Copies before cs after) (ht : before.IsTree) {c : Copy} (hc : c ∈ cs) :
    after.resolve c.target .followed = .ok c.place := by
  induction h with
  | nil => cases hc
  | cons hmade hrest ih =>
    have htree := hmade.keepsTree ht
    rcases List.mem_cons.mp hc with rfl | hc
    · exact (hrest.grows htree).resolve (hmade.resolve_target ht)
    · exact ih htree hc

/-- In the end there is a file at every target. -/
theorem Copies.find_target {before after : FileSystem} {cs : List Copy}
    (h : Copies before cs after) (ht : before.IsTree) {c : Copy} (hc : c ∈ cs) :
    ∃ f, after.find c.target .followed = .ok (c.place, .file f) := by
  have hresolved := h.resolve_target ht hc
  suffices hfile : ∃ f, after.lookup c.place = some (.file f) by
    obtain ⟨f, hf⟩ := hfile
    exact ⟨f, FileSystem.find_iff.mpr ⟨hresolved, hf⟩⟩
  clear hresolved
  induction h with
  | nil => cases hc
  | cons hmade hrest ih =>
    have htree := hmade.keepsTree ht
    rcases List.mem_cons.mp hc with rfl | hc
    · obtain ⟨room, f, -, -, -, hfree, rfl⟩ := hmade
      have hput := FileSystem.lookup_put_self room c.place
        (.file (FileSystem.leaves f c.origin c.place)) (FileSystem.ne_root hfree)
      exact (hrest.grows htree).file c.place _ hput
    · exact ih htree hc

/-! ### Rounds -/

/-- A selection of files, made when its turn comes, and where they go. -/
structure Round where
  directory : Path
  dest : Path
  select : FileSystem → Except StageError (List Path)

/-- A selected file with the path it is copied to. -/
def Round.pair (r : Round) (file : Path) : Path × Path := (file, targetOf r.directory r.dest file)

/-- Rounds made one after the other, with all copies that they come to. -/
inductive Rounds : List Round → FileSystem → List Copy → FileSystem → Prop where
  | nil {fs} : Rounds [] fs [] fs
  | cons {r rest before between after files cs cs'} : Round.select r before = .ok files →
      cs.map (fun c => (c.source, c.target)) = files.map r.pair →
      Copies before cs between → Rounds rest between cs' after →
      Rounds (r :: rest) before (cs ++ cs') after

theorem Rounds.append {before between after : FileSystem} {rs rs' : List Round}
    {cs cs' : List Copy} (h : Rounds rs before cs between) (h' : Rounds rs' between cs' after) :
    Rounds (rs ++ rs') before (cs ++ cs') after := by
  induction h with
  | nil => exact h'
  | cons hselect hpairs hcopies _ ih =>
    rw [List.append_assoc]
    exact .cons hselect hpairs hcopies (ih h')

theorem Rounds.copies {before after : FileSystem} {rs : List Round} {cs : List Copy}
    (h : Rounds rs before cs after) : Copies before cs after := by
  induction h with
  | nil => exact .nil
  | cons _ _ hcopies _ ih => exact hcopies.append ih

/-- The round of the modules. -/
def moduleRound (directory dest : Path) : Round :=
  ⟨directory, dest, fun fs => modulesIn fs directory⟩

theorem select_moduleRound (directory dest : Path) (fs : FileSystem) :
    (moduleRound directory dest).select fs = modulesIn fs directory := rfl

theorem mem_modulesIn {fs : FileSystem} {directory file : Path} {files : List Path}
    (h : modulesIn fs directory = .ok files) : file ∈ files ↔ ∃ names name,
      fs.readDirectory directory = .ok names ∧ name ∈ names ∧ file = directory.join ⟨name⟩ ∧
      fs.isFile file = true ∧ file.extension = some "py" := by
  unfold modulesIn at h
  split at h
  · cases h
  · next names hread =>
    cases h
    simp only [List.mem_mergeSort, List.mem_filter, List.mem_map, isModule, Bool.and_eq_true,
      beq_iff_eq]
    constructor
    · rintro ⟨⟨name, hname, rfl⟩, hfile, hextension⟩
      exact ⟨names, name, hread, hname, rfl, hfile, hextension⟩
    · rintro ⟨names', name, hread', hname, rfl, hfile, hextension⟩
      rw [hread] at hread'
      cases hread'
      exact ⟨⟨name, hname, rfl⟩, hfile, hextension⟩

/-- The round of a pattern. -/
def dataRound (directory dest : Path) (pattern : String) : Round :=
  ⟨directory, dest, fun fs => matchesBelow fs directory pattern⟩

/-- The rounds of a package: its modules first, then its patterns in order. -/
def packageRounds (l : PackageLayout) (root lib : Path) (package : String) : List Round :=
  let directory := root.join (l.sourceDir package)
  let dest := destination lib package
  moduleRound directory dest :: (l.patterns package).map (dataRound directory dest)

/-- All rounds of a layout. -/
def rounds (l : PackageLayout) (root lib : Path) : List Round :=
  l.packages.flatMap (l.packageRounds root lib)

/-! ### What staging comes to -/

theorem copyAll_ok {directory dest : Path} (files : List Path) {targets : List Path}
    {s s' : Session} (h : (copyAll directory dest files).run s = (.ok targets, s')) :
    ∃ cs : List Copy, cs.map (fun c => (c.source, c.target)) =
        files.map (fun f => (f, targetOf directory dest f)) ∧
      cs.map Copy.target = targets ∧ Copies s.files cs s'.files := by
  induction files generalizing s targets with
  | nil =>
    cases h
    exact ⟨[], rfl, rfl, .nil⟩
  | cons file rest ih =>
    rw [copyAll] at h
    obtain ⟨target, s₀, hfirst, h₀⟩ := Task.run_bind_ok h
    obtain ⟨more, s₁, hrest, h₁⟩ := Task.run_bind_ok h₀
    cases h₁
    obtain ⟨c, hpair, htarget, hmade⟩ := copyInto_ok hfirst
    obtain ⟨cs, hpairs, htargets, hcopies⟩ := ih hrest
    refine ⟨c :: cs, ?_, ?_, .cons hmade hcopies⟩
    · rw [List.map_cons, List.map_cons, hpairs, hpair]
    · rw [List.map_cons, htargets, htarget]

theorem copyData_ok {directory dest : Path} (patterns : List String) {targets : List Path}
    {s s' : Session} (h : (copyData directory dest patterns).run s = (.ok targets, s')) :
    ∃ cs, Rounds (patterns.map (dataRound directory dest)) s.files cs s'.files ∧
      cs.map Copy.target = targets := by
  induction patterns generalizing s targets with
  | nil =>
    cases h
    exact ⟨[], .nil, rfl⟩
  | cons pattern rest ih =>
    rw [copyData, Task.run_bind, Task.run_files] at h
    obtain ⟨found, s₀, hfound, h₀⟩ := Task.run_bind_ok h
    obtain ⟨some, s₁, hcopied, h₁⟩ := Task.run_bind_ok h₀
    obtain ⟨more, s₂, hrest, h₂⟩ := Task.run_bind_ok h₁
    cases h₂
    obtain ⟨hselect, hs₀⟩ := Task.run_ofExcept_ok hfound
    subst hs₀
    obtain ⟨cs, hpairs, htargets, hcopies⟩ := copyAll_ok found hcopied
    obtain ⟨cs', hrounds, htargets'⟩ := ih hrest
    refine ⟨cs ++ cs', .cons hselect hpairs hcopies hrounds, ?_⟩
    rw [List.map_append, htargets, htargets']

theorem stagePackage_ok {l : PackageLayout} {root lib : Path} {package : String}
    {targets : List Path} {s s' : Session}
    (h : (l.stagePackage root lib package).run s = (.ok targets, s')) :
    ∃ cs, Rounds (l.packageRounds root lib package) s.files cs s'.files ∧
      cs.map Copy.target = targets := by
  rw [stagePackage, Task.run_bind, Task.run_files] at h
  dsimp only at h
  by_cases hdir : s.files.isDirectory (root.join (l.sourceDir package)) = true
  · simp only [hdir, Bool.not_true, Bool.false_eq_true, if_false] at h
    rw [Task.run_bind, Task.run_files] at h
    obtain ⟨found, s₁, hfound, h₁⟩ := Task.run_bind_ok h
    obtain ⟨modules, s₂, hcopied, h₂⟩ := Task.run_bind_ok h₁
    obtain ⟨data, s₃, hdata, h₃⟩ := Task.run_bind_ok h₂
    obtain ⟨_, s₄, hnote, h₄⟩ := Task.run_bind_ok h₃
    cases hnote
    cases h₄
    obtain ⟨hselect, hs₁⟩ := Task.run_ofExcept_ok hfound
    rw [hs₁] at hcopied
    obtain ⟨cs, hpairs, htargets, hcopies⟩ := copyAll_ok found hcopied
    obtain ⟨cs', hrounds, htargets'⟩ := copyData_ok _ hdata
    have hround : (moduleRound (root.join (l.sourceDir package))
        (destination lib package)).select s.files = .ok found := by
      rw [select_moduleRound, hselect]
    refine ⟨cs ++ cs', .cons hround hpairs hcopies hrounds, ?_⟩
    rw [List.map_append, htargets, htargets']
  · rw [Bool.not_eq_true] at hdir
    rw [hdir] at h
    cases h

theorem stageEach_ok {l : PackageLayout} {root lib : Path} (packages : List String)
    {targets : List Path} {s s' : Session}
    (h : (l.stageEach root lib packages).run s = (.ok targets, s')) :
    ∃ cs, Rounds (packages.flatMap (l.packageRounds root lib)) s.files cs s'.files ∧
      cs.map Copy.target = targets := by
  induction packages generalizing s targets with
  | nil =>
    cases h
    exact ⟨[], .nil, rfl⟩
  | cons package rest ih =>
    rw [stageEach] at h
    obtain ⟨first, s₀, hfirst, h₀⟩ := Task.run_bind_ok h
    obtain ⟨more, s₁, hrest, h₁⟩ := Task.run_bind_ok h₀
    cases h₁
    obtain ⟨cs, hrounds, htargets⟩ := stagePackage_ok hfirst
    obtain ⟨cs', hrounds', htargets'⟩ := ih hrest
    refine ⟨cs ++ cs', hrounds.append hrounds', ?_⟩
    rw [List.map_append, htargets, htargets']

/-- When staging goes well, its rounds were made and their targets are its answer. -/
theorem stage_ok {l : PackageLayout} {root lib : Path} {files : List Path} {s s' : Session}
    (h : (l.stage root lib).run s = (.ok files, s')) :
    ∃ cs, Rounds (l.rounds root lib) s.files cs s'.files ∧
      files = Path.sorted (cs.map Copy.target) := by
  rw [stage] at h
  obtain ⟨targets, s₀, heach, h₀⟩ := Task.run_bind_ok h
  cases h₀
  obtain ⟨cs, hrounds, htargets⟩ := stageEach_ok l.packages heach
  exact ⟨cs, hrounds, by rw [htargets]⟩

end StableWheel.PackageLayout
