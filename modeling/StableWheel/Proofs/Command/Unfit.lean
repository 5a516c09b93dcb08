import StableWheel.Proofs.Command.Confined
import StableWheel.Proofs.Command.Grounds

/-! Projects that cannot be built.

Whatever is wrong with a project, its settings, its modules or its interpreter is found before
anything is compiled or written (`Unfit`). It does not matter where in a project it is, nor how much
else is wrong: there is no plan (`Unfit.unplanned`), and without a plan a command only asks and
stops (`unfit_is_left_alone`). -/
namespace StableWheel

/-! ### What can be wrong -/

/-- The directory of a project is found, and its description is in order. -/
structure Described (options : BuildOptions) (fs : FileSystem) (root : Path)
    (config : ProjectConfig) : Prop where
  found : fs.canonical options.project = .ok root
  valid : (ProjectConfig.load root).answer fs = .ok config

/-- Something is wrong that a compiler need not be run for. -/
inductive Unfit (h : Host) (options : BuildOptions) (fs : FileSystem) : Prop where
  /-- There is no such directory. -/
  | project {e : FileError} (missing : fs.canonical options.project = .error e)
  /-- The description is missing, or it is not one. -/
  | description {root : Path} {e : ConfigError} (found : fs.canonical options.project = .ok root)
      (invalid : (ProjectConfig.load root).answer fs = .error e)
  /-- The user's defaults are there but cannot be read. -/
  | defaults {e : ConfigError} (invalid : UserDefaults.load h fs = .error e)
  /-- One of the modules cannot be described. -/
  | module {root : Path} {config : ProjectConfig} (found : Described options fs root config)
      {m : DeclaredModule} (declared : m ∈ config.extensions) {e : SpecError}
      (bad : ExtensionSpec.describe h.platform config.package.extPackage m = .error e)
  /-- One of the sources of one of the modules is no file. -/
  | source {root : Path} {config : ProjectConfig} (found : Described options fs root config)
      {m : DeclaredModule} (declared : m ∈ config.extensions) {source : Path}
      (listed : source ∈ m.parserSource :: m.bindingSource :: m.extraSources)
      (named : source.isEmpty = false) (missing : fs.isFile (root.join source) = false)
  /-- There are modules, but no interpreter says anything that is understood. -/
  | interpreter {root : Path} {config : ProjectConfig} (found : Described options fs root config)
      (compiles : config.extensions ≠ [])
      (silent : ∀ report, ¬ Reported h options.python fs report)

section
variable {h : Host} {options : BuildOptions} {fs : FileSystem}

/-- Where nothing is wrong there is a plan. -/
theorem unfit_of_unplanned (hnone : ∀ p, ¬ Planned h options fs p) : Unfit h options fs := by
  rcases hroot : fs.canonical options.project with e | root
  · exact .project hroot
  rcases hconfig : (ProjectConfig.load root).answer fs with e | config
  · exact .description hroot hconfig
  have hfound : Described options fs root config := ⟨hroot, hconfig⟩
  rcases hdefaults : UserDefaults.load h fs with e | defaults
  · exact .defaults hdefaults
  rcases ExtensionSpec.describeAll_cases h.platform config.package.extPackage config.extensions
    with ⟨m, hm, e, hbad, -⟩ | ⟨hgood, hspecs⟩
  · exact .module hfound hm hbad
  by_cases hsources : ∀ m ∈ config.extensions,
      ∀ source ∈ m.parserSource :: m.bindingSource :: m.extraSources,
        source.isEmpty = false → fs.isFile (root.join source) = true
  · have hverified : verifySources fs root (config.extensions.map
        (ExtensionSpec.ofDeclared h.platform config.package.extPackage)) = .ok () := by
      refine verifySources_iff.mpr fun spec hspec => ?_
      obtain ⟨m, hm, rfl⟩ := List.mem_map.mp hspec
      refine ⟨(ExtensionSpec.describe_ok (hgood m hm)).2, fun source hsource => ?_⟩
      obtain ⟨hlisted, hnamed⟩ := ExtensionSpec.mem_sources_ofDeclared.mp hsource
      exact hsources m hm source hlisted hnamed
    -- all else is in order, so there would be a plan if the interpreter had answered
    have hunasked : ∀ report, config.asked h options.python fs ≠ .ok report :=
      fun report hreport => hnone
        ⟨root, config, defaults,
          config.buildDir h.environment root options.buildDir defaults, _, report⟩
        (planned_iff_grounds.mpr
          ⟨hroot, hconfig, hdefaults, hspecs, hverified, hreport, rfl⟩)
    have hcompiles : config.extensions ≠ [] := fun hnil =>
      hunasked none (ProjectConfig.asked_iff.mpr (.inl ⟨hnil, rfl⟩))
    exact .interpreter hfound hcompiles fun report hreport =>
      hunasked (some report) (ProjectConfig.asked_iff.mpr (.inr ⟨hcompiles, report, rfl, hreport⟩))
  · push Not at hsources
    obtain ⟨m, hm, source, hlisted, hnamed, hmissing⟩ := hsources
    exact .source hfound hm hlisted hnamed (Bool.eq_false_iff.mpr hmissing)

/-- The project of a plan is the one that is found. -/
theorem Plan.Grounds.described {p : Plan} (g : p.Grounds h options fs) {root : Path}
    {config : ProjectConfig} (hfound : Described options fs root config) :
    root = p.root ∧ config = p.config := by
  obtain rfl : root = p.root := Except.ok.inj (hfound.found.symm.trans g.root)
  exact ⟨rfl, Except.ok.inj (hfound.valid.symm.trans g.config)⟩

/-- All modules of a plan are described, each by its declaration. -/
theorem Plan.Grounds.modules {p : Plan} (g : p.Grounds h options fs) {m : DeclaredModule}
    (hm : m ∈ p.config.extensions) :
    ExtensionSpec.describe h.platform p.config.package.extPackage m =
        .ok (.ofDeclared h.platform p.config.package.extPackage m) ∧
      .ofDeclared h.platform p.config.package.extPackage m ∈ p.specs := by
  have hspecs := g.specs
  rcases ExtensionSpec.describeAll_cases h.platform p.config.package.extPackage
    p.config.extensions with ⟨_, _, e, -, hbad⟩ | ⟨hgood, hall⟩
  · rw [hbad] at hspecs
    cases hspecs
  · rw [hall] at hspecs
    rw [← Except.ok.inj hspecs]
    exact ⟨hgood m hm, List.mem_map_of_mem hm⟩

/-- Where anything is wrong there is none. -/
theorem Unfit.unplanned (hunfit : Unfit h options fs) (p : Plan) : ¬ Planned h options fs p := by
  intro hp
  have g := planned_iff_grounds.mp hp
  cases hunfit with
  | project missing => cases missing.symm.trans g.root
  | description found invalid =>
    obtain rfl := Except.ok.inj (found.symm.trans g.root)
    cases invalid.symm.trans g.config
  | defaults invalid => cases invalid.symm.trans g.defaults
  | module found declared bad =>
    obtain ⟨rfl, rfl⟩ := g.described found
    cases bad.symm.trans (g.modules declared).1
  | source found declared listed named missing =>
    obtain ⟨rfl, rfl⟩ := g.described found
    have hthere := (verifySources_iff.mp g.sources _ (g.modules declared).2).2 _
      (ExtensionSpec.mem_sources_ofDeclared.mpr ⟨listed, named⟩)
    rw [missing] at hthere
    cases hthere
  | interpreter found compiles silent =>
    obtain ⟨rfl, rfl⟩ := g.described found
    rcases ProjectConfig.asked_iff.mp g.report with ⟨hnil, -⟩ | ⟨-, report, -, hreport⟩
    · exact compiles hnil
    · exact silent report hreport

end

/-! ### How it is told -/

/-- A failure that no compiler has to be run for. -/
def CommandError.BeforeBuild : CommandError → Prop
  | noProject .. | config _ | spec _ | sources _ | noInterpreter _ | query .. => True
  | build (.sources _) => True
  | build (.compileFailed ..) | build (.staging _) | pack .. | badTag _ => False

theorem introspect_blames (h : Host) (python : Option String) :
    (introspect h python).Blames CommandError.BeforeBuild :=
  .bind (.explain fun _ => trivial) fun _ => .bind (.explain fun _ => trivial) fun _ =>
    .bind (.note _) fun _ => .pure _

theorem describeEach_blames (platform : Platform) (package : Option String)
    (modules : List DeclaredModule) :
    (describeEach platform package modules).Blames CommandError.BeforeBuild := by
  induction modules with
  | nil => exact .pure _
  | cons m rest ih =>
    exact .bind (.ofExcept fun _ => trivial) fun _ => .bind (.note _) fun _ =>
      .bind ih fun _ => .pure _

/-- Without a plan it is one of these failures. -/
theorem plan_blames (h : Host) (options : BuildOptions) :
    (plan h options).Blames CommandError.BeforeBuild := by
  refine .bind .files fun fs => .bind (.ofExcept fun _ => trivial) fun root => ?_
  refine .bind (.explain fun _ => trivial) fun config => ?_
  refine .bind .files fun fs => .bind (.ofExcept fun _ => trivial) fun defaults => ?_
  refine .bind (describeEach_blames _ _ _) fun specs => ?_
  refine .bind .files fun fs => .bind (.ofExcept fun _ => trivial) fun _ => ?_
  split
  · exact .bind (.bind (introspect_blames h _) fun _ => .pure _) fun _ => .pure _
  · exact .bind (.pure _) fun _ => .pure _

/-- A fresh pass that finds all sources stops at a compiler or at staging. -/
theorem BuildPass.run_error {t : Toolchain} {b b' : BuildPass} {s s' : Session} {e : BuildError}
    (hfresh : b.compiled = false)
    (hsources : verifySources s.files b.context.root b.extensions = .ok ())
    (he : b.run t s = (.error e, b', s')) : ∀ missing, e ≠ .sources missing := by
  have hstaging : ∀ {b : BuildPass} {s : Session}, buildPackages b s = (.error e, b', s') →
      ∀ missing, e ≠ .sources missing := by
    intro b s hstop
    unfold buildPackages at hstop
    dsimp only at hstop
    split at hstop
    · cases hstop
    · cases hstop
      exact fun _ => nofun
  cases hany : b.hasExtensions with
  | false => exact hstaging (run_without_extensions hany ▸ he)
  | true =>
    rcases buildExtensions_cases t b s with ⟨hcompiled, -⟩ |
        ⟨-, ⟨_, hmissing, -⟩ | ⟨-, ⟨artifacts, hd⟩ | ⟨earlier, failing, artifacts, hs⟩⟩⟩
    · rw [hfresh] at hcompiled
      cases hcompiled
    · rw [hsources] at hmissing
      cases hmissing
    · exact hstaging (run_built hany hd.outcome ▸ he)
    · rw [run_stopped hany hs.outcome] at he
      cases he
      exact fun _ => nofun

theorem buildProject_error {h : Host} {options : BuildOptions} {p : Plan} {s ready : Session}
    (hp : (plan h options).run s = (.ok p, ready)) {e : CommandError}
    (he : ((buildProject h options).run s).1 = .error e) :
    ∃ cause b' s', e = .build cause ∧ (p.pass h.platform options.verbose).run
      (.ofHost h h.target options.verbose) ready = (.error cause, b', s') := by
  rw [buildProject, Task.run_bind, hp] at he
  dsimp only at he
  rw [Task.run_bind, runPass, Task.run_ofRun] at he
  rcases hrun : (p.pass h.platform options.verbose).run (.ofHost h h.target options.verbose) ready
    with ⟨cause | u, b', s'⟩
  · rw [hrun] at he
    cases he
    exact ⟨cause, b', s', rfl, rfl⟩
  · rw [hrun] at he
    dsimp only at he
    rw [Task.run_bind, printEach_run] at he
    dsimp only at he
    split at he
    · rw [Task.run_bind, printEach_run] at he
      cases he
    · cases he

theorem noteRewriting_blames {kind : CommandError → Prop} (t : Tag) :
    (noteRewriting t).Blames kind := by
  unfold noteRewriting
  split
  · exact .note _
  · exact .pure _

/-- With a plan a command fails at the build or at packing. -/
theorem command_error {h : Host} {c : Command} {options : BuildOptions}
    (hc : c.building? = some options) {p : Plan} {fs : FileSystem} {ready : Session}
    (hp : (plan h options).run (h.session fs) = (.ok p, ready)) {e : CommandError}
    (he : ((c.run h).run (h.session fs)).1 = .error e) :
    (∃ cause b' s', e = .build cause ∧ (p.pass h.platform options.verbose).run
      (.ofHost h h.target options.verbose) ready = (.error cause, b', s')) ∨
    ∃ dist cause, e = .pack dist cause := by
  have hbuild : ∀ {e' left}, (buildProject h options).run (h.session fs) = (.error e', left) →
      ∃ cause b' s', e' = .build cause ∧ (p.pass h.platform options.verbose).run
        (.ofHost h h.target options.verbose) ready = (.error cause, b', s') := fun hstop =>
    buildProject_error hp (congrArg Prod.fst hstop)
  cases c with
  | build _ =>
    cases hc
    rw [Command.run] at he
    rcases Task.run_bind_cases (buildProject h options) _ (h.session fs) with
      ⟨e', left, hstop, hend⟩ | ⟨p', left, -, hend⟩
    · rw [hend] at he
      cases he
      exact .inl (hbuild hstop)
    · rw [hend] at he
      cases he
  | bdistWheel _ dist platform =>
    cases hc
    rw [Command.run] at he
    rcases Task.run_bind_cases (packProject h options dist platform) _ (h.session fs) with
      ⟨e', left, hstop, hend⟩ | ⟨wheel, left, -, hend⟩
    · rw [hend] at he
      cases he
      rw [packProject] at hstop
      rcases Task.run_bind_cases (buildProject h options) _ (h.session fs) with
        ⟨e'', left', hstop', hend'⟩ | ⟨p', left', -, hend'⟩
      · rw [hend'] at hstop
        cases hstop
        exact .inl (hbuild hstop')
      · rw [hend'] at hstop
        have hpack : ∀ {t : Task WheelError Path} {dist : Path},
            (t.explain (CommandError.pack dist)).Blames fun e => ∃ dist cause, e = .pack dist cause :=
          .explain fun cause => ⟨_, cause, rfl⟩
        refine .inr ?_
        dsimp only at hstop
        split at hstop
        · exact Task.Blames.bind (noteRewriting_blames _) (fun _ => hpack) left' _
            (congrArg Prod.fst hstop)
        · exact hpack left' _ (congrArg Prod.fst hstop)
    · rw [hend] at he
      cases he
  | _ => cases hc

/-! ### What is left alone -/

/-- No module is compiled by a question. -/
theorem Invocation.IsQuestion.not_compiles {i : Invocation} (hi : i.IsQuestion) (h : Host)
    (spec : ExtensionSpec) (context : CompileContext) (c : Compiler) :
    i.arguments ≠ Toolchain.moduleArguments h spec context c := by
  intro hsame
  have hlong : 3 ≤ (Toolchain.moduleArguments h spec context c).length := by
    have hstyle : ∀ output, 3 ≤ (outputArguments context output c.style).length := by
      intro output
      cases c.style <;> simp [outputArguments]
    have := hstyle (spec.artifactPath context.buildLib context.platform)
    simp only [Toolchain.moduleArguments, compileArguments, List.length_append]
    omega
  have hshort : i.arguments.length ≤ 2 := by
    rcases List.mem_cons.mp hi with hi | hi
    · rw [hi]
      decide
    · rw [List.mem_singleton.mp hi]
      simp
  rw [← hsame] at hlong
  omega

/-- **What is wrong with a project is found before anything is done.** A command that builds fails
for one of the reasons that need no compiler exactly if there is something of that kind: no project,
no valid description, no readable defaults, a module that cannot be described, a source that is not
there, or an interpreter that does not answer, anywhere and together with whatever else. Then the
command fails, every file is as it was, and all that was started are interpreters that were asked
about themselves: no module was compiled. -/
theorem unfit_is_left_alone {h : Host} (hquiet : h.Quiet) {arguments : List String} {r : Request}
    {options : BuildOptions} (hread : Request.read arguments = .ok r)
    (hr : r.command.building? = some options) (fs : FileSystem) :
    ((∃ e, ((r.command.run h).run (h.session fs)).1 = .error e ∧ e.BeforeBuild) ↔
        Unfit h options fs) ∧
      (Unfit h options fs →
        (runLine h arguments fs).exit = 1 ∧
        (runLine h arguments fs).session.files = fs ∧
        ∀ i ∈ (runLine h arguments fs).session.started, i.arguments ∈ Interpreter.questions ∧
          ∀ spec context c, i.arguments ≠ Toolchain.moduleArguments h spec context c) := by
  have hline : runLine h arguments fs = r.run h fs := by rw [runLine, hread]
  have hstops : Unfit h options fs → ∃ e ready,
      (plan h options).run (h.session fs) = (.error e, ready) := by
    intro hunfit
    rcases hp : (plan h options).run (h.session fs) with ⟨e | p, ready⟩
    · exact ⟨e, ready, rfl⟩
    · exact absurd (congrArg Prod.fst hp) (hunfit.unplanned p)
  refine ⟨⟨?_, fun hunfit => ?_⟩, fun hunfit => ?_⟩
  · rintro ⟨e, he, hbefore⟩
    by_contra hfit
    obtain ⟨p, hp⟩ := not_forall_not.mp fun hnone => hfit (unfit_of_unplanned hnone)
    obtain ⟨ready, hready, hfiles⟩ := hp.ready hquiet
    rcases command_error hr hready he with ⟨cause, b', s', rfl, hrun⟩ | ⟨dist, cause, rfl⟩
    · have hsources : verifySources ready.files (p.context h.platform).root p.specs = .ok () := by
        rw [hfiles, p.context_root]
        exact (planned_iff_grounds.mp hp).sources
      cases cause with
      | sources missing => exact BuildPass.run_error rfl hsources hrun missing rfl
      | compileFailed => exact hbefore
      | staging => exact hbefore
    · exact hbefore
  · obtain ⟨e, ready, hp⟩ := hstops hunfit
    exact ⟨e, congrArg Prod.fst (Command.run_unplanned hr hp),
      plan_blames h options _ e (congrArg Prod.fst hp)⟩
  · obtain ⟨e, ready, hp⟩ := hstops hunfit
    obtain ⟨more, hmore, hasked⟩ := (plan_asks options).starts (h.session fs)
    have hsession : (r.run h fs).session = ready := by rw [run_files, Command.run_unplanned hr hp]
    have hexit : (r.run h fs).exit = 1 := by
      rw [Request.run, Command.run_unplanned hr hp]
    rw [hp] at hmore
    rw [hline, hsession]
    refine ⟨hexit, ?_, fun i hi => ?_⟩
    · rw [← hsession]
      exact run_unplanned hquiet hr hunfit.unplanned
    · have hquestion : i.IsQuestion := hasked i (by rwa [hmore] at hi)
      exact ⟨hquestion, hquestion.not_compiles h⟩

/-! ### A source that is not there -/

/-- Two modules, the sources of one of which are not all there. -/
def scannerless : FileSystem :=
  sampleProject ("[[extension]]\nname='_b'\nparser-source='p.c'\nbinding-source='b.c'\n"
    ++ "extra-sources=['scanner.c']\n") []

/-- The other module is not compiled either. -/
theorem scannerless_is_left_alone :
    (runLine (sampleHost writeModule) ["bdist-wheel"] scannerless).exit = 1 ∧
      (runLine (sampleHost writeModule) ["bdist-wheel"] scannerless).session.files = scannerless ∧
      ∀ i ∈ (runLine (sampleHost writeModule) ["bdist-wheel"] scannerless).session.started,
        i.arguments ∈ Interpreter.questions ∧ ∀ spec context c,
          i.arguments ≠ Toolchain.moduleArguments (sampleHost writeModule) spec context c := by
  have hread : Request.read ["bdist-wheel"] = .ok sampleRequest := by decide +kernel
  obtain ⟨hfails, halone⟩ := unfit_is_left_alone sampleHost_quiet hread rfl scannerless
  refine halone (hfails.mp ⟨.sources (.missing "_b" ⟨"/p/scanner.c"⟩), ?_, trivial⟩)
  decide +kernel

end StableWheel
