import StableWheel.Proofs.Glob.Unread
import StableWheel.Proofs.Package.Copies

/-! Rounds make a staging.

The rounds of a layout are all there is to staging: it ends well exactly when they can all be made
(`stage_iff`), and then in one way only (`Rounds.unique`). No round looks at more than the shape of
the file system (`select_of_sameShape`), so staging ends the same in file systems with the same
files (`stage_of_sameFiles`). -/
namespace StableWheel.PackageLayout
open FileSystem

/-! ### What a round looks at -/

theorem select_dataRound (directory dest : Path) (pattern : String) (fs : FileSystem) :
    (dataRound directory dest pattern).select fs = matchesBelow fs directory pattern := rfl

section
variable {a b : FileSystem} (h : SameShape a b) (ha : Tidy a) (hb : Tidy b)
include h ha hb

theorem modulesIn_of_sameShape (directory : Path) : modulesIn a directory = modulesIn b directory := by
  have hmodule : isModule a = isModule b := by
    funext p
    rw [isModule, isModule, h.isFile]
  rw [modulesIn, modulesIn, h.readDirectory ha hb, hmodule]

theorem matchesBelow_of_sameShape (directory : Path) (pattern : String) :
    matchesBelow a directory pattern = matchesBelow b directory pattern := by
  have hfile : a.isFile = b.isFile := funext fun p => h.isFile
  rw [matchesBelow, matchesBelow, hfile]
  cases Glob.Query.ofText (patternBelow directory pattern) with
  | error e => rfl
  | ok query => simp only [query.run_of_sameShape h ha hb]

theorem select_of_sameShape {l : PackageLayout} {root lib : Path} {r : Round}
    (hr : r ∈ l.rounds root lib) : r.select a = r.select b := by
  obtain ⟨package, -, hr⟩ := List.mem_flatMap.mp hr
  rw [packageRounds, List.mem_cons, List.mem_map] at hr
  obtain rfl | ⟨pattern, -, rfl⟩ := hr
  · rw [select_moduleRound, select_moduleRound, modulesIn_of_sameShape h ha hb]
  · rw [select_dataRound, select_dataRound, matchesBelow_of_sameShape h ha hb]

end

/-! ### Copies where the files are the same -/

section
variable {a b before after after' : FileSystem} {c c' : Copy} {cs cs' : List Copy}

theorem Copy.Made.tidy (h : c.Made before after) (htidy : before.Tidy) : after.Tidy := by
  obtain ⟨room, f, hroom, -, hplace, -, rfl⟩ := h
  have hmade : room.Tidy := by
    have hall := makeRoom_moves (R := fun before after => before.Tidy → after.Tidy)
      (fun _ h => h) createDirectories_tidy before c.target htidy
    rwa [hroom] at hall
  exact hmade.put (hmade.resolve hplace) _

theorem Copies.tidy (h : Copies before cs after) (htidy : before.Tidy) : after.Tidy := by
  induction h with
  | nil => exact htidy
  | cons hmade _ ih => exact ih (hmade.tidy htidy)

theorem makeRoom_sameFiles (h : SameFiles a b) (target : Path) :
    SameOutcome (makeRoom a target) (makeRoom b target) := by
  unfold makeRoom
  split
  · exact ⟨rfl, h⟩
  · exact h.createDirectories _

theorem Copy.Made.of_sameFiles (h : c.Made a after) (hsame : SameFiles a b) :
    ∃ after', c.Made b after' ∧ SameFiles after after' := by
  obtain ⟨room, f, hroom, hfound, hplace, hfree, rfl⟩ := h
  obtain ⟨answer, room', room'', hroom', hroom'', hrooms⟩ := (makeRoom_sameFiles hsame c.target).cases
  rw [hroom] at hroom'
  cases hroom'
  refine ⟨_, ⟨room'', f, hroom'', ?_, ?_, ?_, rfl⟩, hrooms.put _ _⟩
  · rw [← hrooms.find, hfound]
  · rw [← hrooms.shape.resolve, hplace]
  · rw [hrooms.lookup]
    exact hfree

theorem Copies.of_sameFiles (h : Copies a cs after) (hsame : SameFiles a b) :
    ∃ after', Copies b cs after' ∧ SameFiles after after' := by
  induction h generalizing b with
  | nil => exact ⟨b, .nil, hsame⟩
  | cons hmade _ ih =>
    obtain ⟨between, hmade', hbetween⟩ := hmade.of_sameFiles hsame
    obtain ⟨after', hrest, hafter⟩ := ih hbetween
    exact ⟨after', .cons hmade' hrest, hafter⟩

/-- Rounds come to the same copies wherever the files are the same. -/
theorem Rounds.of_sameFiles {l : PackageLayout} {root lib : Path} {rs : List Round}
    (h : Rounds rs a cs after) (hrs : ∀ r ∈ rs, r ∈ l.rounds root lib) (hsame : SameFiles a b)
    (ha : a.Tidy) (hb : b.Tidy) : ∃ after', Rounds rs b cs after' ∧ SameFiles after after' := by
  induction h generalizing b with
  | nil => exact ⟨b, .nil, hsame⟩
  | cons hselect hpairs hcopies _ ih =>
    rw [select_of_sameShape hsame.shape ha hb (hrs _ (List.mem_cons_self ..))] at hselect
    obtain ⟨between, hcopies', hbetween⟩ := hcopies.of_sameFiles hsame
    obtain ⟨after', hrest, hafter⟩ := ih (fun r hr => hrs r (List.mem_cons_of_mem _ hr)) hbetween
      (hcopies.tidy ha) (hcopies'.tidy hb)
    exact ⟨after', .cons hselect hpairs hcopies' hrest, hafter⟩

/-! ### One outcome -/

theorem Copy.Made.unique (h : c.Made before after) (h' : c'.Made before after')
    (hpair : (c.source, c.target) = (c'.source, c'.target)) : c' = c ∧ after' = after := by
  obtain ⟨source, target, origin, place⟩ := c
  obtain ⟨source', target', origin', place'⟩ := c'
  obtain ⟨rfl, rfl⟩ := Prod.mk.inj hpair
  obtain ⟨room, f, hroom, hfound, hplace, -, rfl⟩ := h
  obtain ⟨room', f', hroom', hfound', hplace', -, rfl⟩ := h'
  rw [hroom] at hroom'
  cases hroom'
  rw [hfound] at hfound'
  cases hfound'
  rw [hplace] at hplace'
  cases hplace'
  exact ⟨rfl, rfl⟩

theorem Copies.unique (h : Copies before cs after) (h' : Copies before cs' after')
    (hpairs : cs.map (fun c => (c.source, c.target)) = cs'.map fun c => (c.source, c.target)) :
    cs' = cs ∧ after' = after := by
  induction h generalizing cs' with
  | nil =>
    obtain rfl := List.map_eq_nil_iff.mp hpairs.symm
    cases h'
    exact ⟨rfl, rfl⟩
  | cons hmade _ ih =>
    cases h' with
    | nil => cases hpairs
    | cons hmade' hrest =>
      obtain ⟨hpair, hmore⟩ := List.cons.inj hpairs
      obtain ⟨rfl, rfl⟩ := hmade.unique hmade' hpair
      obtain ⟨rfl, rfl⟩ := ih hrest hmore
      exact ⟨rfl, rfl⟩

theorem Rounds.unique {rs : List Round} (h : Rounds rs before cs after)
    (h' : Rounds rs before cs' after') : cs' = cs ∧ after' = after := by
  induction h generalizing cs' with
  | nil =>
    cases h'
    exact ⟨rfl, rfl⟩
  | cons hselect hpairs hcopies _ ih =>
    cases h' with
    | cons hselect' hpairs' hcopies' hrest =>
      rw [hselect] at hselect'
      cases hselect'
      obtain ⟨rfl, rfl⟩ := hcopies.unique hcopies' (hpairs.trans hpairs'.symm)
      obtain ⟨rfl, rfl⟩ := ih hrest
      exact ⟨rfl, rfl⟩

end

/-! ### Making the rounds -/

/-- A directory whose modules are selected is there. -/
theorem isDirectory_of_modulesIn {fs : FileSystem} {directory : Path} {files : List Path}
    (h : modulesIn fs directory = .ok files) : fs.isDirectory directory = true := by
  unfold modulesIn at h
  split at h
  · cases h
  · next names hread =>
    unfold readDirectory at hread
    obtain ⟨⟨place, n⟩, hfound, hn⟩ := bind_ok hread
    unfold isDirectory status
    rw [hfound]
    cases n with
    | directory => rfl
    | file f => cases hn
    | link target => cases hn

theorem Rounds.split {rs rs' : List Round} {before after : FileSystem} {cs : List Copy}
    (h : Rounds (rs ++ rs') before cs after) :
    ∃ earlier later between, cs = earlier ++ later ∧ Rounds rs before earlier between ∧
      Rounds rs' between later after := by
  induction rs generalizing before cs with
  | nil => exact ⟨[], cs, before, rfl, .nil, h⟩
  | cons r rest ih =>
    cases h with
    | cons hselect hpairs hcopies hrest =>
      obtain ⟨earlier, later, between, rfl, hearlier, hlater⟩ := ih hrest
      exact ⟨_, later, between, (List.append_assoc ..).symm,
        .cons hselect hpairs hcopies hearlier, hlater⟩

section
variable {directory dest : Path} {s : Session} {after : FileSystem} {cs : List Copy}

theorem copyInto_of_made {c : Copy} (h : c.Made s.files after)
    (htarget : c.target = targetOf directory dest c.source) :
    (copyInto directory dest c.source).run s = (.ok c.target, { s with files := after }) := by
  obtain ⟨room, f, hroom, hfound, hplace, hfree, rfl⟩ := h
  have hwrite : ∀ f', room.write c.target f' = (.ok (), room.put c.place (.file f')) := by
    intro f'
    unfold write
    rw [hplace]
    dsimp only
    split
    · next hdirectory => exact absurd hdirectory hfree
    · rfl
  have hcopy : room.copy c.source c.target =
      (.ok (), room.put c.place (.file (leaves f c.origin c.place))) := by
    unfold copy leaves
    rw [hfound, hplace]
    dsimp only
    rw [hwrite, hwrite]
    split <;> rfl
  rw [copyInto, ← htarget, Task.run_bind, Task.run_onFiles, hroom]
  dsimp only [Except.mapError]
  rw [Task.run_bind, Task.run_onFiles, hcopy]
  rfl

theorem copyAll_of_copies {files : List Path} (h : Copies s.files cs after)
    (hpairs : cs.map (fun c => (c.source, c.target)) =
      files.map fun file => (file, targetOf directory dest file)) :
    (copyAll directory dest files).run s =
      (.ok (cs.map Copy.target), { s with files := after }) := by
  induction cs generalizing s files with
  | nil =>
    obtain rfl := List.map_eq_nil_iff.mp hpairs.symm
    cases h
    rfl
  | cons c rest ih =>
    obtain ⟨file, files, rfl⟩ := List.exists_cons_of_ne_nil (l := files) (by rintro rfl; cases hpairs)
    cases h with
    | @cons _ _ _ between _ hmade hrest =>
      obtain ⟨hpair, hmore⟩ := List.cons.inj hpairs
      obtain ⟨rfl, htarget⟩ := Prod.mk.inj hpair
      have hnext := ih (s := { s with files := between }) hrest hmore
      rw [copyAll, Task.run_bind, copyInto_of_made hmade htarget]
      dsimp only
      rw [Task.run_bind, hnext]
      rfl

theorem copyData_of_rounds (patterns : List String)
    (h : Rounds (patterns.map (dataRound directory dest)) s.files cs after) :
    (copyData directory dest patterns).run s =
      (.ok (cs.map Copy.target), { s with files := after }) := by
  induction patterns generalizing s cs with
  | nil =>
    cases h
    rfl
  | cons pattern rest ih =>
    cases h with
    | @cons _ _ _ between _ files cs cs' hselect hpairs hcopies hrest =>
      rw [select_dataRound] at hselect
      have hcopied : (copyAll directory dest files).run s =
          (.ok (cs.map Copy.target), { s with files := between }) :=
        copyAll_of_copies hcopies hpairs
      have hnext := ih (s := { s with files := between }) hrest
      rw [copyData, Task.run_bind, Task.run_files]
      dsimp only
      rw [hselect, Task.run_bind, Task.run_ofExcept]
      dsimp only
      rw [Task.run_bind, hcopied]
      dsimp only
      rw [Task.run_bind, hnext, List.map_append]
      rfl

end

variable {l : PackageLayout} {root lib : Path} {s : Session} {after : FileSystem} {cs : List Copy}

/-- A package whose modules are selected is copied: they first, and then what its patterns match. -/
theorem stagePackage_of_modules {package : String} {found : List Path}
    (h : modulesIn s.files (root.join (l.sourceDir package)) = .ok found) :
    (l.stagePackage root lib package).run s = Task.run (do
      let modules ← copyAll (root.join (l.sourceDir package)) (destination lib package) found
      let data ← copyData (root.join (l.sourceDir package)) (destination lib package)
        (l.patterns package)
      Task.note ("staged package " ++ package ++ " from " ++ (root.join (l.sourceDir package)).text)
      return modules ++ data) s := by
  -- a directory whose modules were selected could be read
  have hdirectory := isDirectory_of_modulesIn h
  rw [stagePackage, Task.run_bind, Task.run_files]
  simp only [hdirectory, Bool.not_true, Bool.false_eq_true, if_false]
  rw [Task.run_bind, Task.run_files]
  dsimp only
  rw [h, Task.run_bind, Task.run_ofExcept]

theorem stagePackage_of_rounds {package : String}
    (h : Rounds (l.packageRounds root lib package) s.files cs after) :
    ∃ s', (l.stagePackage root lib package).run s = (.ok (cs.map Copy.target), s') ∧
      s'.files = after := by
  rw [packageRounds] at h
  cases h with
  | @cons _ _ _ between _ files cs cs' hselect hpairs hcopies hrest =>
    rw [select_moduleRound] at hselect
    have hcopied :
        (copyAll (root.join (l.sourceDir package)) (destination lib package) files).run s =
          (.ok (cs.map Copy.target), { s with files := between }) :=
      copyAll_of_copies hcopies hpairs
    have hdata := copyData_of_rounds (s := { s with files := between }) _ hrest
    refine ⟨{ s with
      files := after
      notes := s.notes ++
        ["staged package " ++ package ++ " from " ++ (root.join (l.sourceDir package)).text] },
      ?_, rfl⟩
    rw [stagePackage_of_modules hselect, Task.run_bind, hcopied]
    dsimp only
    rw [Task.run_bind, hdata, List.map_append]
    rfl

theorem stageEach_of_rounds (packages : List String)
    (h : Rounds (packages.flatMap (l.packageRounds root lib)) s.files cs after) :
    ∃ s', (l.stageEach root lib packages).run s = (.ok (cs.map Copy.target), s') ∧
      s'.files = after := by
  induction packages generalizing s cs with
  | nil =>
    cases h
    exact ⟨s, rfl, rfl⟩
  | cons package rest ih =>
    rw [List.flatMap_cons] at h
    obtain ⟨earlier, later, between, rfl, hearlier, hlater⟩ := h.split
    obtain ⟨s₀, hfirst, rfl⟩ := stagePackage_of_rounds hearlier
    obtain ⟨s₁, hrest, hs₁⟩ := ih hlater
    refine ⟨s₁, ?_, hs₁⟩
    rw [stageEach, Task.run_bind, hfirst]
    dsimp only
    rw [Task.run_bind, hrest, List.map_append]
    rfl

/-- Staging ends well exactly when its rounds can all be made; their targets are its answer. -/
theorem stage_iff {files : List Path} :
    (∃ s', (l.stage root lib).run s = (.ok files, s') ∧ s'.files = after) ↔
      ∃ cs, Rounds (l.rounds root lib) s.files cs after ∧
        files = Path.sorted (cs.map Copy.target) := by
  constructor
  · rintro ⟨s', h, rfl⟩
    exact stage_ok h
  · rintro ⟨cs, hrounds, rfl⟩
    obtain ⟨s', heach, hs'⟩ := stageEach_of_rounds l.packages hrounds
    refine ⟨s', ?_, hs'⟩
    rw [stage, Task.run_bind, heach]
    rfl

/-- Staging ends the same wherever the files are the same, however they are listed. -/
theorem stage_of_sameFiles {files : List Path} {s' o : Session}
    (h : (l.stage root lib).run s = (.ok files, s')) (hsame : SameFiles s.files o.files)
    (htidy : s.files.Tidy) (htidy' : o.files.Tidy) :
    ∃ o', (l.stage root lib).run o = (.ok files, o') ∧ SameFiles s'.files o'.files := by
  obtain ⟨cs, hrounds, hfiles⟩ := stage_ok h
  obtain ⟨after', hrounds', hafter⟩ := hrounds.of_sameFiles (fun _ hr => hr) hsame htidy htidy'
  obtain ⟨o', hrun, hfiles'⟩ := stage_iff.mpr ⟨cs, hrounds', hfiles⟩
  exact ⟨o', hrun, by rwa [hfiles']⟩

end StableWheel.PackageLayout
