import StableWheel.Proofs.Command.Modules

/-! How commands end, well or not.

Whatever comes of a command, the files that it leaves are those that one of its parts has left: the
plan, the compilers, staging or packing (`buildProject_ends`, `packProject_ends`). -/
namespace StableWheel

theorem printEach_run {ε : Type} (lines : List String) (s : Session) :
    (printEach lines : Task ε Unit).run s =
      (.ok (), { s with printed := s.printed ++ lines }) := by
  induction lines generalizing s with
  | nil => rw [List.append_nil]; rfl
  | cons line rest ih =>
    rw [printEach, Task.run_bind, Task.run_print]
    dsimp only
    rw [ih, List.append_assoc]
    rfl

/-! ### Planning -/

/-- What a command finds out before it builds anything. -/
def Planned (h : Host) (options : BuildOptions) (fs : FileSystem) (p : Plan) : Prop :=
  ((plan h options).run (h.session fs)).1 = .ok p

/-- Interpreters that are asked about themselves leave the files alone. -/
def Host.Quiet (h : Host) : Prop :=
  ∀ arguments ∈ Interpreter.questions, ∀ place fs, (h.behave place arguments fs).2 = fs

/-- Nothing happens to the files. -/
theorem unchanged_composes : FileSystem.Composes fun before after => after = before :=
  ⟨fun _ => rfl, fun hab hbc => hbc.trans hab⟩

theorem Host.Quiet.plan_files {h : Host} (hquiet : h.Quiet) (options : BuildOptions)
    (s : Session) : ((plan h options).run s).2.files = s.files :=
  plan_moves unchanged_composes hquiet options s

theorem Planned.ready {h : Host} (hquiet : h.Quiet) {options : BuildOptions} {fs : FileSystem}
    {p : Plan} (hp : Planned h options fs p) :
    ∃ ready, (plan h options).run (h.session fs) = (.ok p, ready) ∧ ready.files = fs :=
  ⟨_, Prod.ext hp rfl, hquiet.plan_files options (h.session fs)⟩

/-! ### Building -/

namespace BuildPass

/-- The session in which a pass is done with its modules, whatever came of them. -/
def compiling (t : Toolchain) (b : BuildPass) (s : Session) : Session :=
  if b.hasExtensions then (buildExtensions t b s).2.2 else s

theorem buildPackages_ends (b : BuildPass) (s : Session) :
    ∃ between, between.files = s.files ∧ (buildPackages b s).2.2 =
      ((b.layout.stage b.context.root b.context.buildLib).run between).2 := by
  refine ⟨b.announce "running build_py" s, announce_files b _ s, ?_⟩
  unfold buildPackages
  dsimp only
  split
  · next heq => rw [heq]
  · next heq => rw [heq]

/-- A pass stops at its modules, or goes on and ends as staging does. -/
theorem run_ends (t : Toolchain) (b : BuildPass) (s : Session) :
    (b.hasExtensions = true ∧ (∃ e, (b.run t s).1 = .error e) ∧ (b.run t s).2.2 = compiling t b s) ∨
    (b.hasExtensions = true → (buildExtensions t b s).1 = .ok ()) ∧
      ∃ between, between.files = (compiling t b s).files ∧
        (b.run t s).2.2 = ((b.layout.stage b.context.root b.context.buildLib).run between).2 := by
  unfold compiling
  cases he : b.hasExtensions with
  | false =>
    obtain ⟨between, hbetween, hleft⟩ := buildPackages_ends b s
    exact .inr ⟨(fun h => by cases h), between, hbetween,
      by rw [run_without_extensions he, hleft]⟩
  | true =>
    rw [if_pos rfl]
    rcases ho : buildExtensions t b s with ⟨e | _, b', left⟩
    · exact .inl ⟨rfl, ⟨e, by rw [run_stopped he ho]⟩, by rw [run_stopped he ho]⟩
    · obtain ⟨between, hbetween, hleft⟩ := buildPackages_ends b' left
      obtain ⟨hcontext, hlayout⟩ := buildExtensions_plan ho
      rw [hcontext, hlayout] at hleft
      exact .inr ⟨fun _ => rfl, between, hbetween, by rw [run_built he ho, hleft]⟩

end BuildPass

/-- The files that a pass finds when it comes to the packages of a plan. -/
def Plan.compiled (h : Host) (options : BuildOptions) (p : Plan) (ready : Session) : FileSystem :=
  (BuildPass.compiling (.ofHost h h.target options.verbose) (p.pass h.platform options.verbose)
    ready).files

/-- The files that a pass leaves when it builds a plan. -/
def Plan.built (h : Host) (options : BuildOptions) (p : Plan) (ready : Session) : FileSystem :=
  ((p.pass h.platform options.verbose).run (.ofHost h h.target options.verbose) ready).2.2.files

/-- The pass comes to its end. -/
def Plan.Builds (h : Host) (options : BuildOptions) (p : Plan) (ready : Session) : Prop :=
  ((p.pass h.platform options.verbose).run (.ofHost h h.target options.verbose) ready).1 = .ok ()

theorem Plan.context_root (p : Plan) (platform : Platform) :
    (p.context platform).root = p.root := by
  unfold context
  split <;> rfl

theorem Plan.context_platform (p : Plan) (platform : Platform) :
    (p.context platform).platform = platform := by
  unfold context
  split <;> rfl

theorem Plan.context_buildLib (p : Plan) (platform : Platform) :
    (p.context platform).buildLib = p.buildDir.join ⟨"lib"⟩ := by
  unfold context
  split <;> rfl

theorem Plan.context_buildTemp (p : Plan) (platform : Platform) :
    (p.context platform).buildTemp = p.buildDir.join ⟨"temp"⟩ := by
  unfold context
  split <;> rfl

/-- All modules of a plan are compiled, if it has any. -/
def Plan.Compiles (h : Host) (options : BuildOptions) (p : Plan) (ready : Session) : Prop :=
  (p.pass h.platform options.verbose).hasExtensions = true →
    (BuildPass.buildExtensions (.ofHost h h.target options.verbose)
      (p.pass h.platform options.verbose) ready).1 = .ok ()

theorem Plan.built_ends (h : Host) (options : BuildOptions) (p : Plan) (ready : Session) :
    (¬ p.Builds h options ready ∧ p.built h options ready = p.compiled h options ready) ∨
    p.Compiles h options ready ∧ ∃ between, between.files = p.compiled h options ready ∧
      p.built h options ready =
        ((p.config.package.layout.stage p.root (p.context h.platform).buildLib).run
          between).2.files := by
  unfold Plan.Builds Plan.built
  rcases BuildPass.run_ends (.ofHost h h.target options.verbose)
      (p.pass h.platform options.verbose) ready with
    ⟨-, ⟨e, hstop⟩, hleft⟩ | ⟨hcompiles, between, hbetween, hleft⟩
  · rw [hstop, hleft]
    exact .inl ⟨(fun hbuilds => by cases hbuilds), rfl⟩
  · refine .inr ⟨hcompiles, between, hbetween, ?_⟩
    rw [hleft, ← p.context_root h.platform]
    rfl

theorem buildProject_ends {h : Host} {options : BuildOptions} {p : Plan} {s ready : Session}
    (hp : (plan h options).run s = (.ok p, ready)) :
    ∃ r left, (buildProject h options).run s = (r, left) ∧ left.files = p.built h options ready ∧
      ∀ p', r = .ok p' → p' = p ∧ p.Builds h options ready := by
  rw [buildProject, Task.run_bind, hp]
  dsimp only
  rw [Task.run_bind, runPass, Task.run_ofRun]
  unfold Plan.built Plan.Builds
  rcases (p.pass h.platform options.verbose).run (.ofHost h h.target options.verbose) ready with
    ⟨e | u, done, left⟩
  · exact ⟨_, _, rfl, rfl, fun p' hr => by cases hr⟩
  · dsimp only
    rw [Task.run_bind, printEach_run]
    dsimp only
    split
    · rw [Task.run_bind, printEach_run]
      exact ⟨_, _, rfl, rfl, fun p' hr => by cases hr; exact ⟨rfl, rfl⟩⟩
    · exact ⟨_, _, rfl, rfl, fun p' hr => by cases hr; exact ⟨rfl, rfl⟩⟩

theorem buildProject_unplanned {h : Host} {options : BuildOptions} {e : CommandError}
    {s ready : Session} (hp : (plan h options).run s = (.error e, ready)) :
    (buildProject h options).run s = (.error e, ready) := by
  rw [buildProject, Task.run_bind, hp]

/-! ### Packing -/

/-- Where the wheel of a plan goes. -/
def Plan.distDir (h : Host) (p : Plan) (dist : Option Path) : Path :=
  p.config.distDir h.environment p.root dist p.defaults

theorem noteRewriting_run {ε : Type} (t : Tag) (s : Session) :
    ∃ noted, (noteRewriting t : Task ε Unit).run s = (.ok (), noted) ∧ noted.files = s.files ∧
      noted.printed = s.printed := by
  unfold noteRewriting
  split
  · exact ⟨_, rfl, rfl, rfl⟩
  · exact ⟨s, rfl, rfl, rfl⟩

/-- Packing is what comes last, if the project is built. -/
theorem packProject_ends {h : Host} {options : BuildOptions} {p : Plan} {s ready : Session}
    (hp : (plan h options).run s = (.ok p, ready)) (dist : Option Path)
    (platform : Option String) :
    (∃ e left, (packProject h options dist platform).run s = (.error e, left) ∧
      left.files = p.built h options ready) ∨
    p.Builds h options ready ∧ ∃ packing, packing.files = p.built h options ready ∧
      (packProject h options dist platform).run s =
        (((p.wheel (chosenPlatform h platform)).pack (p.context h.platform).buildLib
          (p.distDir h dist)).explain (.pack (p.distDir h dist))).run packing := by
  obtain ⟨r, left, hbuild, hleft, hplanned⟩ := buildProject_ends hp
  rw [packProject, Task.run_bind, hbuild]
  rcases r with e | p'
  · exact .inl ⟨e, left, rfl, hleft⟩
  obtain ⟨rfl, hbuilds⟩ := hplanned p' rfl
  dsimp only
  split
  · next report hreport =>
    obtain ⟨noted, hnote, hfiles, -⟩ := noteRewriting_run (ε := CommandError)
      (Tag.ofReport report (chosenPlatform h platform)) left
    refine .inr ⟨hbuilds, noted, hfiles.trans hleft, ?_⟩
    rw [Task.run_bind, hnote]
    rfl
  · exact .inr ⟨hbuilds, left, hleft, rfl⟩

theorem packProject_unplanned {h : Host} {options : BuildOptions} {e : CommandError}
    {s ready : Session} (hp : (plan h options).run s = (.error e, ready)) (dist : Option Path)
    (platform : Option String) :
    (packProject h options dist platform).run s = (.error e, ready) := by
  rw [packProject, Task.run_bind, buildProject_unplanned hp]

/-! ### Commands -/

namespace Command

/-- What a command that builds was told of the build. -/
def building? : Command → Option BuildOptions
  | build options | bdistWheel options _ _ => some options
  | _ => none

/-- The wheel that a command makes of a plan, and the directory that it goes to. -/
def wheel? (h : Host) (p : Plan) : Command → Option (Wheel × Path)
  | bdistWheel _ dist tagged => some (p.wheel (chosenPlatform h tagged), p.distDir h dist)
  | _ => none

end Command

theorem run_files (h : Host) (r : Request) (fs : FileSystem) :
    (r.run h fs).session = ((r.command.run h).run (h.session fs)).2 := by
  unfold Request.run
  dsimp only
  split <;> rfl

/-- Without a plan nothing comes after planning. -/
theorem Command.run_unplanned {h : Host} {c : Command} {options : BuildOptions}
    (hc : c.building? = some options) {e : CommandError} {s ready : Session}
    (hp : (plan h options).run s = (.error e, ready)) : (c.run h).run s = (.error e, ready) := by
  cases c with
  | build _ =>
    cases hc
    rw [Command.run, Task.run_bind, buildProject_unplanned hp]
  | bdistWheel _ dist platform =>
    cases hc
    rw [Command.run, Task.run_bind, packProject_unplanned hp]
  | _ => cases hc

/-- Without a plan nothing is touched. -/
theorem run_unplanned {h : Host} (hquiet : h.Quiet) {r : Request} {options : BuildOptions}
    (hr : r.command.building? = some options) {fs : FileSystem}
    (hnone : ∀ p, ¬ Planned h options fs p) : (r.run h fs).session.files = fs := by
  have hfiles := hquiet.plan_files options (h.session fs)
  rcases hplan : (plan h options).run (h.session fs) with ⟨e | p, ready⟩
  · rw [hplan] at hfiles
    rw [run_files, Command.run_unplanned hr hplan]
    exact hfiles
  · exact absurd (congrArg Prod.fst hplan) (hnone p)

/-- With a plan the files are as the pass has left them, or as packing has. -/
theorem run_planned {h : Host} {r : Request} {options : BuildOptions}
    (hr : r.command.building? = some options) {fs : FileSystem} {p : Plan} {ready : Session}
    (hp : (plan h options).run (h.session fs) = (.ok p, ready)) :
    (r.run h fs).session.files = p.built h options ready ∨
      p.Builds h options ready ∧ ∃ w dist packing, r.command.wheel? h p = some (w, dist) ∧
        packing.files = p.built h options ready ∧
        (r.run h fs).session.files =
          ((w.pack (p.context h.platform).buildLib dist).run packing).2.files := by
  rw [run_files]
  obtain ⟨command, debug⟩ := r
  cases command with
  | build _ =>
    cases hr
    obtain ⟨result, left, hbuild, hleft, -⟩ := buildProject_ends hp
    rw [Command.run, Task.run_bind, hbuild]
    rcases result with e | p'
    · exact .inl hleft
    · exact .inl hleft
  | bdistWheel _ dist platform =>
    cases hr
    have hcommand : ((Command.run h (.bdistWheel options dist platform)).run
        (h.session fs)).2.files =
        ((packProject h options dist platform).run (h.session fs)).2.files := by
      rw [Command.run, Task.run_bind]
      rcases (packProject h options dist platform).run (h.session fs) with ⟨_ | _, _⟩ <;> rfl
    rw [hcommand]
    rcases packProject_ends hp dist platform with
      ⟨e, left, hstop, hleft⟩ | ⟨hbuilds, packing, hpacking, hleft⟩
    · exact .inl (by rw [hstop, hleft])
    · exact .inr ⟨hbuilds, _, _, packing, rfl, hpacking, by rw [hleft, Task.run_explain]⟩
  | _ => cases hr

end StableWheel
