import StableWheel.Proofs.Command.Writes
import StableWheel.Proofs.FileSystem.Below

/-! Where a command may write.

The settings of a project are put into paths: the names of packages and modules, what patterns
match, the name of the wheel. As long as none of them leads upwards or starts anew at the root
(`Plan.Tame`), a command writes inside the build directory, or the wheel itself
(`run_stays_inside`); nothing sees to it that they do not (`settings_lead_outside`). -/
namespace StableWheel
open FileSystem

section
variable {h : Host} {r : Request} {options : BuildOptions} {fs : FileSystem} {p : Plan}
  {ready : Session}

/-! ### Paths that stay inside -/

/-- A last path behind some parts, all below the tree for results, does not climb out of the
directory that this tree is in. -/
def StaysInside (parts : List String) (last : Path) : Prop :=
  (∀ part ∈ parts, (Path.mk part).isAbsolute = false) ∧ last.isAbsolute = false ∧
    (follow ["lib"] ((parts.flatMap fun part => Step.named ⟨part⟩) ++ Step.named last)).isSome

instance (parts : List String) (last : Path) : Decidable (StaysInside parts last) :=
  inferInstanceAs (Decidable (_ ∧ _ ∧ _))

theorem StaysInside.inside {parts : List String} {last buildDir : Path} {top place : Location}
    {ending : Ending} (hin : StaysInside parts last) (htop : fs.Heads .followed buildDir top)
    (hlinks : Unlinked fs top)
    (hplace : fs.Heads ending (((buildDir.join ⟨"lib"⟩).extend parts).join last) place) :
    top <+: place := by
  obtain ⟨hparts, hlast, hsome⟩ := hin
  obtain ⟨names, hnames⟩ := Option.isSome_iff_exists.mp hsome
  have hlib := (Continues.refl buildDir).join (q := ⟨"lib"⟩) rfl
  have hall := (hlib.extend hparts).join hlast
  have hfollow : follow [] ([] ++ Step.named ⟨"lib"⟩ ++
      (parts.flatMap fun part => Step.named ⟨part⟩) ++ Step.named last) = some names := by
    rw [List.append_assoc]
    exact hnames
  have hname : Step.named ⟨"lib"⟩ = [.enter "lib"] := Step.named_of_name (by decide)
  rw [hall.inside htop hlinks hfollow (by simp [hname]) hplace]
  exact List.prefix_append top names

theorem ExtensionSpec.artifactPath_eq (spec : ExtensionSpec) (below : Path) (platform : Platform) :
    spec.artifactPath below platform = (below.extend (spec.package.toList.flatMap
      PackageLayout.parts)).join ⟨spec.artifactName platform⟩ := by
  unfold artifactPath
  cases spec.package with
  | none => rfl
  | some package => simp [PackageLayout.parts]

theorem Wheel.fileName_ne (w : Wheel) {s : String} (h : s.length < 4) : w.fileName ≠ s := by
  have hlength : w.fileName.length = (w.stem ++ "-" ++ w.tag.text).length + 4 := by
    rw [fileName, String.length_append]
    rfl
  rintro rfl
  omega

/-- Nothing that the settings of a project put into a path leads out of the tree for results: not
the names of modules and the packages that these are placed in, not the names of packages and the
files that are copied for them, and not the name of the wheel. -/
structure Plan.Tame (h : Host) (r : Request) (p : Plan)
    (copies : List (String × PackageLayout.Copy)) : Prop where
  modules : ∀ spec ∈ p.specs,
    StaysInside (spec.package.toList.flatMap PackageLayout.parts) ⟨spec.artifactName h.platform⟩
  files : ∀ package c, (package, c) ∈ copies → StaysInside (PackageLayout.parts package)
    ((c.source.relativeTo (p.root.join (p.config.package.layout.sourceDir package))).getD c.source)
  wheel : ∀ w dist, r.command.wheel? h p = some (w, dist) → '/' ∉ w.fileName.toList

theorem WrittenAt.inside {copies : List (String × PackageLayout.Copy)}
    (hheads : ∀ package c, (package, c) ∈ copies → package ∈ p.config.package.layout.packages ∧
      c.target = PackageLayout.targetOf (p.root.join (p.config.package.layout.sourceDir package))
        (PackageLayout.destination (p.context h.platform).buildLib package) c.source ∧
      fs.Heads .followed c.target c.place)
    (htame : p.Tame h r copies) {top place : Location}
    (htop : fs.Heads .followed p.buildDir top) (hlinks : Unlinked fs top)
    (hplace : WrittenAt h r fs p copies place) :
    top <+: place ∨ ∃ w dist room, r.command.wheel? h p = some (w, dist) ∧
      fs.Heads .followed dist room ∧ place = room ++ [w.fileName] := by
  cases hplace with
  | compiled hcompiled =>
    refine .inl ?_
    obtain ⟨spec, hspec, ⟨ending, hmodule⟩ | ⟨temp, htemp, hbelow⟩⟩ := hcompiled
    · rw [p.context_buildLib, p.context_platform, ExtensionSpec.artifactPath_eq] at hmodule
      exact (htame.modules spec hspec).inside htop hlinks hmodule
    · have hinside := (Continues.refl p.buildDir).join (q := ⟨"temp"⟩) rfl
      have hfollow : follow [] ([] ++ Step.named ⟨"temp"⟩) = some ["temp"] := rfl
      rw [p.context_buildTemp] at htemp
      rw [hinside.inside htop hlinks hfollow (by simp) htemp] at hbelow
      exact (List.prefix_append top _).trans hbelow
  | @copied package c hc =>
    obtain ⟨-, htarget, hhead⟩ := hheads package c hc
    rw [htarget, p.context_buildLib] at hhead
    exact .inl ((htame.files package c hc).inside htop hlinks hhead)
  | @packed w dist place hw hwheel =>
    have hname : Nameable w.fileName := ⟨w.fileName_ne (by decide), w.fileName_ne (by decide),
      w.fileName_ne (by decide), htame.wheel w dist hw⟩
    obtain ⟨room, hroom, hplace⟩ := heads_join_name hname hwheel
    exact .inr ⟨w, dist, room, hw, hroom, hplace⟩

end

/-- **Nothing but results is written, as long as no setting leads astray.** A command that has no
plan changes nothing. One that has a plan changes modules and what compilers need on the way, the
files that it copies for packages, and the wheel, whatever comes of it; and as long as the settings
are tame, the wheel is right in the directory for wheels and all else is inside the build directory,
if there are no links in it. -/
theorem run_stays_inside {h : Host} {r : Request} {options : BuildOptions}
    (hr : r.command.building? = some options) {fs : FileSystem} (ht : fs.IsTree)
    (hquiet : h.Quiet) (hcompilers : ∀ p, Planned h options fs p → ∀ spec ∈ p.specs,
      h.CompilesOnly (p.context h.platform) spec) :
    ((∀ p, ¬ Planned h options fs p) → (r.run h fs).session.files = fs) ∧
    ∀ p, Planned h options fs p → ∃ ready copies, ready.files = fs ∧
      p.Copying h options ready copies ∧
      (∀ place, Changed fs (r.run h fs).session.files place → WrittenAt h r fs p copies place) ∧
      ∀ top, fs.Heads .followed p.buildDir top → Unlinked fs top → p.Tame h r copies →
        ∀ place, WrittenAt h r fs p copies place →
          top <+: place ∨ ∃ w dist room, r.command.wheel? h p = some (w, dist) ∧
            fs.Heads .followed dist room ∧ place = room ++ [w.fileName] := by
  refine ⟨run_unplanned hquiet hr, fun p hp => ?_⟩
  obtain ⟨ready, hplan, hfiles⟩ := hp.ready hquiet
  obtain ⟨copies, hcopying, hheads, hchanges⟩ := run_changes hr hplan hfiles ht (hcompilers p hp)
  exact ⟨ready, copies, hfiles, hcopying, hchanges, fun top htop hlinks htame place hplace =>
    hplace.inside hheads htame htop hlinks⟩

/-! ### A project that stays inside -/

theorem unlinked_of_entries {fs : FileSystem}
    (h : ∀ e ∈ fs.entries, (e.2 matches .file _ | .directory) = true) (top : Location) :
    Unlinked fs top := by
  intro place target _ hl
  rw [lookup] at hl
  split at hl
  · cases hl
  · obtain ⟨before, after, heq, -⟩ := List.lookup_eq_some_iff.mp hl
    have hplain := h (place, .link target) (by rw [heq]; simp)
    cases hplain

theorem write_unnamed (fs : FileSystem) (f : File) : (fs.write ⟨""⟩ f).2 = fs := by
  simp [FileSystem.write, resolve, checkPath, Path.isEmpty, bind, Except.bind]

theorem sampleHost_quiet : (sampleHost writeModule).Quiet := by
  intro arguments hasked place fs
  show (if place = ["bin", "cc"] then _ else _ : Finished × FileSystem).2 = fs
  split
  · simp only [Interpreter.questions, List.mem_cons, List.not_mem_nil, or_false] at hasked
    rcases hasked with rfl | rfl
    · exact write_unnamed fs ⟨.data ⟨#[7]⟩, true⟩
    · exact write_unnamed fs ⟨.data ⟨#[7]⟩, true⟩
  · rfl

theorem sampleHost_compiler (compile : List String → FileSystem → FileSystem) (fs : FileSystem) :
    Compiler.resolve (sampleHost compile) fs (sampleHost compile).target =
      some ⟨"cc", none, Compiler.usualFlags .gnu, .gnu⟩ := by
  have htarget : (sampleHost compile).target = "x86_64-unknown-linux-gnu" := rfl
  have hcall : ∀ fs, Compiler.Call.ofVariables (sampleHost compile).environment fs
      "x86_64-unknown-linux-gnu" = ⟨none, "cc", []⟩ := fun fs => by rfl
  have htold : ∀ found : Option Location, found.bind (sampleHost compile).takesSlashes = none := by
    intro found
    cases found <;> rfl
  have hknown : isTarget "x86_64-unknown-linux-gnu" = true := by decide +kernel
  have hstyle : CompilerStyle.of (Compiler.Call.namedForSlashes ⟨none, "cc", []⟩)
      "x86_64-unknown-linux-gnu" = .gnu := by decide +kernel
  have hflags : Compiler.flagsFor (sampleHost compile).environment
      "x86_64-unknown-linux-gnu" = [] := by rfl
  rw [Compiler.resolve, htarget, hcall]
  dsimp only
  rw [htold, hknown, Option.getD_none, hstyle, hflags]
  rfl

theorem sampleHost_compilesOnly {context : CompileContext} {spec : ExtensionSpec}
    (hoption : BuildPass.outputIn (Toolchain.moduleArguments (sampleHost writeModule) spec context
        ⟨"cc", none, Compiler.usualFlags .gnu, .gnu⟩) =
      spec.artifactPath context.buildLib context.platform) :
    (sampleHost writeModule).CompilesOnly context spec := by
  rintro c place fs ⟨found, hc⟩
  rw [sampleHost_compiler] at hc
  cases hc
  have hwritten : Steady fs
      (fun x => fs.Heads .followed (spec.artifactPath context.buildLib context.platform) x ∨
        ∃ temp, fs.Heads .followed context.buildTemp temp ∧ temp <+: x)
      fs (fs.write (spec.artifactPath context.buildLib context.platform)
        ⟨.data ⟨#[7]⟩, true⟩).2 :=
    (write_steady fs _ _).mono fun x hx => .inl hx
  rw [← hoption] at hwritten ⊢
  show Steady _ _ fs (if place = ["bin", "cc"] then _ else _ : Finished × FileSystem).2
  split
  · exact hwritten
  · exact steady_composes.refl fs

/-- What `sampleRun` asks for. -/
def sampleRequest : Request := ⟨.bdistWheel ⟨⟨"."⟩, none, none, false⟩ none none, false⟩

/-- A module in a package. -/
def tameProject : FileSystem := sampleProject "ext-package='demo'\n" []

def tameModule : DeclaredModule := ⟨"_a", ⟨"p.c"⟩, ⟨"b.c"⟩, []⟩

/-- What `bdist-wheel` finds out there. -/
def tamePlan : Plan where
  root := ⟨"/p"⟩
  config := ⟨⟨"demo", "1", none, none, some "demo", .empty⟩, [tameModule], .unset⟩
  defaults := .unset
  buildDir := ⟨"/p/build"⟩
  specs := [.ofDeclared (sampleHost writeModule).platform (some "demo") tameModule]
  report := some ⟨"cpython", 3, 8, none, ⟨""⟩, "linux", none, ⟨""⟩⟩

theorem planned_iff {h : Host} {options : BuildOptions} {fs : FileSystem} {p : Plan} :
    Planned h options fs p ↔ ((plan h options).run (h.session fs)).1.toOption = some p := by
  unfold Planned
  cases ((plan h options).run (h.session fs)).1 <;> simp [Except.toOption]

theorem planned_tamePlan {p : Plan} :
    Planned (sampleHost writeModule) ⟨⟨"."⟩, none, none, false⟩ tameProject p ↔ p = tamePlan := by
  have hfound : ((plan (sampleHost writeModule) ⟨⟨"."⟩, none, none, false⟩).run
      ((sampleHost writeModule).session tameProject)).1.toOption = some tamePlan := by
    decide +kernel
  rw [planned_iff, hfound, Option.some_inj, eq_comm]

theorem tamePlan_written : ∀ spec ∈ tamePlan.specs,
    BuildPass.outputIn (Toolchain.moduleArguments (sampleHost writeModule) spec
        (tamePlan.context (sampleHost writeModule).platform)
        ⟨"cc", none, Compiler.usualFlags .gnu, .gnu⟩) =
      spec.artifactPath (tamePlan.context (sampleHost writeModule).platform).buildLib
        (tamePlan.context (sampleHost writeModule).platform).platform := by
  decide +kernel

theorem tamePlan_tame (copies : List (String × PackageLayout.Copy)) (hnone : copies = []) :
    tamePlan.Tame (sampleHost writeModule) sampleRequest copies := by
  refine ⟨by decide +kernel, fun package c hc => ?_, fun w dist hw => ?_⟩
  · rw [hnone] at hc
    cases hc
  · obtain ⟨rfl, rfl⟩ := Prod.mk.inj (Option.some.inj hw)
    decide +kernel

theorem tameProject_stays_inside :
    Planned (sampleHost writeModule) ⟨⟨"."⟩, none, none, false⟩ tameProject tamePlan ∧
      ∀ place, Changed tameProject
          (sampleRequest.run (sampleHost writeModule) tameProject).session.files place →
        ["p", "build"] <+: place ∨ place = ["p", "dist", "demo-1-cp38-abi3-linux.whl"] := by
  have hplanned := planned_tamePlan.mpr rfl
  have hcompilers : ∀ p, Planned (sampleHost writeModule) ⟨⟨"."⟩, none, none, false⟩ tameProject p →
      ∀ spec ∈ p.specs, (sampleHost writeModule).CompilesOnly
        (p.context (sampleHost writeModule).platform) spec := by
    intro p hp spec hspec
    rw [planned_tamePlan.mp hp] at hspec ⊢
    exact sampleHost_compilesOnly (tamePlan_written spec hspec)
  obtain ⟨ready, copies, -, hcopying, hchanges, hinside⟩ :=
    (run_stays_inside (r := sampleRequest) (h := sampleHost writeModule) rfl
      (isTree_of_entries (by decide) (by decide)) sampleHost_quiet hcompilers).2 tamePlan hplanned
  refine ⟨hplanned, fun place hchanged => ?_⟩
  have hbuild : tameProject.Heads .followed tamePlan.buildDir ["p", "build"] :=
    heads_of_resolve (by decide +kernel)
  have hdist : tameProject.Heads .followed (tamePlan.distDir (sampleHost writeModule) none)
      ["p", "dist"] := heads_of_resolve (by decide +kernel)
  have htame := tamePlan_tame copies (hcopying.eq_nil rfl)
  rcases hinside _ hbuild (unlinked_of_entries (by decide) _) htame place
    (hchanges place hchanged) with hbelow | ⟨w, dist, room, hw, hroom, hplace⟩
  · exact .inl hbelow
  · obtain ⟨rfl, rfl⟩ := Prod.mk.inj (Option.some.inj hw)
    have hname : (tamePlan.wheel (chosenPlatform (sampleHost writeModule) none)).fileName =
        "demo-1-cp38-abi3-linux.whl" := by decide +kernel
    rw [hplace, hroom.unique hdist, hname]
    exact .inr rfl

/-! ### Settings that lead astray -/

/-- A project without modules. -/
def strayProject (description : String) (more : List (Location × Entry)) : FileSystem where
  entries :=
    [(["p"], .directory), (["p", "wheelwright.toml"], .file
      ⟨.data ("[package]\n" ++ description).toUTF8, false⟩)] ++ more
  workingDirectory := ["p"]

/-- A package that is named like the directory it is in. -/
def absolutePackage : FileSystem :=
  strayProject "name='demo'\nversion='1'\npackages=['/p/src']\n"
    [(["p", "src"], .directory), (["p", "src", "x.py"], .file ⟨.data ⟨#[1]⟩, false⟩)]

/-- A file of the project among the data files of a package. -/
def climbingPattern : FileSystem :=
  strayProject ("name='demo'\nversion='1'\npackages=['pkg']\npackage-dir=\x7bpkg='a/b/c'\x7d\n"
      ++ "package-data=\x7bpkg=['../../../keep.txt']\x7d\n")
    [(["p", "a"], .directory), (["p", "a", "b"], .directory), (["p", "a", "b", "c"], .directory),
      (["p", "keep.txt"], .file ⟨.data ⟨#[1]⟩, false⟩)]

/-- Modules in an absolute package, one of them named like a path. -/
def absoluteModules : FileSystem :=
  sampleProject ("ext-package='/p'\n[[extension]]\nname='../evil'\n"
    ++ "parser-source='p.c'\nbinding-source='b.c'\n") []

/-- A name that climbs out of the directory for wheels. -/
def climbingName : FileSystem :=
  strayProject "name='../demo'\nversion='1'\npackages=['pkg']\n"
    [(["p", "pkg"], .directory), (["p", "pkg", "x.py"], .file ⟨.data ⟨#[1]⟩, false⟩)]

/-- What comes of `build` there. -/
def strayBuild (fs : FileSystem) : Outcome :=
  Request.run (sampleHost writeModule) ⟨.build ⟨⟨"."⟩, none, none, false⟩, false⟩ fs

/-- Files of the project are emptied, and modules and wheels appear beside it. -/
theorem settings_lead_outside :
    ((strayBuild absolutePackage).exit = 0 ∧ Changed absolutePackage
      (strayBuild absolutePackage).session.files ["p", "src", "x.py"]) ∧
    ((strayBuild climbingPattern).exit = 0 ∧ Changed climbingPattern
      (strayBuild climbingPattern).session.files ["p", "keep.txt"]) ∧
    ((strayBuild absoluteModules).exit = 0 ∧ Changed absoluteModules
      (strayBuild absoluteModules).session.files ["p", "_a.abi3.so"] ∧ Changed absoluteModules
      (strayBuild absoluteModules).session.files ["evil.abi3.so"]) ∧
    ((sampleRequest.run (sampleHost writeModule) climbingName).exit = 0 ∧ Changed climbingName
      (sampleRequest.run (sampleHost writeModule) climbingName).session.files
      ["p", "demo-1-py3-none-any.whl"]) := by
  decide +kernel

end StableWheel
