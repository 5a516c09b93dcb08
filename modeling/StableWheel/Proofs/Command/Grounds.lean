import StableWheel.Proofs.Build.Sources
import StableWheel.Proofs.Command.Endings
import StableWheel.Proofs.Session.Asking

/-! What a plan rests on.

Finding out what there is to build only asks: it reads files, and it starts no programs but those
that are asked whether they are an interpreter, and which one (`plan_asks`). Nothing of that changes
the files before the interpreter is asked, so each answer can be taken from the files of the start
(`plan_gives`), and a plan is made exactly where all of them are there (`planned_iff_grounds`). -/
namespace StableWheel

/-! ### Asking -/

/-- A program is asked about itself. -/
def Invocation.IsQuestion (i : Invocation) : Prop := i.arguments ∈ Interpreter.questions

section
variable {h : Host}

theorem firstAnswering_asks (candidates : List String) :
    Task.Asks Invocation.IsQuestion (Interpreter.firstAnswering h candidates) := by
  induction candidates with
  | nil => exact .throw _
  | cons candidate rest ih =>
    refine .bind (.attempt (.start (by simp [Invocation.IsQuestion, Interpreter.questions])))
      fun answer => ?_
    cases answer with
    | error e => exact ih
    | ok finished =>
      dsimp only
      split
      · exact .pure _
      · exact ih

theorem locate_asks (given : Option String) :
    Task.Asks Invocation.IsQuestion (Interpreter.locate h given) := by
  unfold Interpreter.locate
  split
  · exact .pure _
  · exact firstAnswering_asks _

theorem report_asks (program : String) :
    Task.Asks Invocation.IsQuestion (Interpreter.report h program) := by
  refine .bind (.note _) fun _ => .bind (.explain (.start ?_)) fun finished => ?_
  · simp [Invocation.IsQuestion, Interpreter.questions]
  · dsimp only
    split
    · exact .bind (.throw _) fun _ => .ofExcept _
    · exact .ofExcept _

theorem introspect_asks (python : Option String) :
    Task.Asks Invocation.IsQuestion (introspect h python) :=
  .bind (.explain (locate_asks python)) fun program =>
    .bind (.explain (report_asks program)) fun _ => .bind (.note _) fun _ => .pure _

theorem load_asks (root : Path) :
    Task.Asks Invocation.IsQuestion (ProjectConfig.load root) := by
  refine .bind .files fun fs => ?_
  dsimp only
  split
  · exact .bind (.throw _) fun _ => .bind (.ofExcept _) fun _ =>
      .bind (.note _) fun _ => .ofExcept _
  · exact .bind (.ofExcept _) fun _ => .bind (.note _) fun _ => .ofExcept _

theorem describeEach_asks (platform : Platform) (package : Option String)
    (modules : List DeclaredModule) :
    Task.Asks Invocation.IsQuestion (describeEach platform package modules) := by
  induction modules with
  | nil => exact .pure _
  | cons m rest ih =>
    exact .bind (.ofExcept _) fun _ => .bind (.note _) fun _ => .bind ih fun _ => .pure _

theorem plan_asks (options : BuildOptions) :
    Task.Asks Invocation.IsQuestion (plan h options) := by
  refine .bind .files fun fs => .bind (.ofExcept _) fun root => ?_
  refine .bind (.explain (load_asks root)) fun config => ?_
  refine .bind .files fun fs => .bind (.ofExcept _) fun defaults => ?_
  refine .bind (describeEach_asks _ _ _) fun specs => ?_
  refine .bind .files fun fs => .bind (.ofExcept _) fun _ => ?_
  split
  · exact .bind (.bind (introspect_asks _) fun _ => .pure _) fun _ => .pure _
  · exact .bind (.pure _) fun _ => .pure _

end

/-! ### Answers -/

/-- An interpreter is found, and this is what it says of itself. -/
def Reported (h : Host) (python : Option String) (fs : FileSystem) (r : Report) : Prop :=
  (introspect h python).answer fs = .ok r

theorem load_still (root : Path) (s : Session) :
    ((ProjectConfig.load root).run s).2.files = s.files :=
  load_moves unchanged_composes root s

theorem describeEach_still (platform : Platform) (package : Option String)
    (modules : List DeclaredModule) (s : Session) :
    ((describeEach platform package modules).run s).2.files = s.files :=
  describeEach_moves unchanged_composes platform package modules s

theorem describeEach_gives (platform : Platform) (package : Option String)
    (modules : List DeclaredModule) (fs : FileSystem) :
    (describeEach platform package modules).Gives fs
      ((ExtensionSpec.describeAll platform package modules).mapError .spec) := by
  induction modules with
  | nil => exact .pure _
  | cons m rest ih =>
    have hlast : ∀ spec, Task.Gives
        (describeEach platform package rest >>= fun specs => pure (spec :: specs)) fs
        ((ExtensionSpec.describeAll platform package rest).mapError .spec >>= fun specs =>
          .ok (spec :: specs)) :=
      fun spec => .bind ih (describeEach_still platform package rest) fun _ => .pure _
    have hall : (ExtensionSpec.describeAll platform package (m :: rest)).mapError .spec =
        ((ExtensionSpec.describe platform package m).mapError CommandError.spec >>= fun spec =>
          (ExtensionSpec.describeAll platform package rest).mapError .spec >>= fun specs =>
            .ok (spec :: specs)) := by
      rw [ExtensionSpec.describeAll_cons]
      rcases ExtensionSpec.describe platform package m with e | spec
      · rfl
      · rcases ExtensionSpec.describeAll platform package rest with e | specs <;> rfl
    rw [hall, describeEach]
    exact .bind (.ofExcept _) (fun _ => rfl) fun spec => .bind_note (hlast spec)

/-- What is known of the interpreter once it was asked, if there is anything to compile. -/
def ProjectConfig.asked (c : ProjectConfig) (h : Host) (python : Option String)
    (fs : FileSystem) : Except CommandError (Option Report) :=
  if c.extensions = [] then .ok none
  else (introspect h python).answer fs >>= fun report => .ok (some report)

/-- Without modules nobody is asked, with modules a report is all that will do. -/
theorem ProjectConfig.asked_iff {c : ProjectConfig} {h : Host} {python : Option String}
    {fs : FileSystem} {report : Option Report} :
    c.asked h python fs = .ok report ↔
      (c.extensions = [] ∧ report = none) ∨
        c.extensions ≠ [] ∧ ∃ r, report = some r ∧ Reported h python fs r := by
  unfold asked Reported
  split
  · next hnil => simp [hnil, eq_comm]
  · next hne =>
    rcases (introspect h python).answer fs with e | r
    · simp [hne, bind, Except.bind]
    · simp [hne, bind, Except.bind, eq_comm]

/-- What a plan rests on, one answer after the other. -/
def Plan.findings (h : Host) (options : BuildOptions) (fs : FileSystem) :
    Except CommandError Plan := do
  let root ← (fs.canonical options.project).mapError (.noProject options.project)
  let config ← ((ProjectConfig.load root).answer fs).mapError .config
  let defaults ← (UserDefaults.load h fs).mapError .config
  let specs ← (ExtensionSpec.describeAll h.platform config.package.extPackage
    config.extensions).mapError .spec
  (verifySources fs root specs).mapError .sources
  let report ← config.asked h options.python fs
  return {
    root, config, defaults, specs, report
    buildDir := config.buildDir h.environment root options.buildDir defaults }

theorem ProjectConfig.hasExtensions_iff {c : ProjectConfig} :
    c.hasExtensions = true ↔ c.extensions ≠ [] := by
  simp [hasExtensions]

theorem plan_gives (h : Host) (options : BuildOptions) (fs : FileSystem) :
    (plan h options).Gives fs (Plan.findings h options fs) := by
  refine .bind_files (.bind (.ofExcept _) (fun _ => rfl) fun root => ?_)
  refine .bind (.explain ((load_asks root).gives fs)) (load_still root) fun config => ?_
  refine .bind_files (.bind (.ofExcept _) (fun _ => rfl) fun defaults => ?_)
  refine .bind (describeEach_gives _ _ _ fs) (describeEach_still _ _ _) fun specs => ?_
  refine .bind_files (.bind (.ofExcept _) (fun _ => rfl) fun _ => ?_)
  unfold ProjectConfig.asked
  split
  · next hhas =>
    rw [if_neg (ProjectConfig.hasExtensions_iff.mp hhas)]
    refine .bind_blind (.bind_blind ((introspect_asks _).gives fs) fun report s => ?_)
      fun report s => ?_
    · rfl
    · rfl
  · next hhas =>
    rw [if_pos (not_not.mp fun hne => hhas (ProjectConfig.hasExtensions_iff.mpr hne))]
    exact .bind_blind (.pure none) fun _ _ => rfl

/-! ### Plans -/

/-- What there is wherever a plan is made: the project and the settings, modules that all have their
sources, and what the interpreter says of itself if there are any. -/
structure Plan.Grounds (h : Host) (options : BuildOptions) (fs : FileSystem) (p : Plan) :
    Prop where
  root : fs.canonical options.project = .ok p.root
  config : (ProjectConfig.load p.root).answer fs = .ok p.config
  defaults : UserDefaults.load h fs = .ok p.defaults
  specs : ExtensionSpec.describeAll h.platform p.config.package.extPackage p.config.extensions =
    .ok p.specs
  sources : verifySources fs p.root p.specs = .ok ()
  report : p.config.asked h options.python fs = .ok p.report
  buildDir : p.buildDir =
    p.config.buildDir h.environment p.root options.buildDir p.defaults

/-- A plan is made exactly on its grounds. -/
theorem planned_iff_grounds {h : Host} {options : BuildOptions} {fs : FileSystem} {p : Plan} :
    Planned h options fs p ↔ p.Grounds h options fs := by
  have hfindings : Planned h options fs p ↔ Plan.findings h options fs = .ok p := by
    rw [Planned, plan_gives h options fs (h.session fs) rfl]
  rw [hfindings]
  constructor
  · intro hp
    obtain ⟨root, hroot, hp⟩ := bind_ok hp
    obtain ⟨config, hconfig, hp⟩ := bind_ok hp
    obtain ⟨defaults, hdefaults, hp⟩ := bind_ok hp
    obtain ⟨specs, hspecs, hp⟩ := bind_ok hp
    obtain ⟨_, hsources, hp⟩ := bind_ok hp
    obtain ⟨report, hreport, hp⟩ := bind_ok hp
    cases hp
    exact ⟨mapError_ok hroot, mapError_ok hconfig, mapError_ok hdefaults, mapError_ok hspecs,
      mapError_ok hsources, hreport, rfl⟩
  · intro hp
    simp only [Plan.findings, hp.root, hp.config, hp.defaults, hp.specs, hp.sources, hp.report,
      Except.mapError, bind, Except.bind, pure, Except.pure, ← hp.buildDir]

end StableWheel
