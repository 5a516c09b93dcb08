import StableWheel.Proofs.Build.Failure
import StableWheel.Proofs.Command.Effects
import StableWheel.Proofs.Package.Faithful
import StableWheel.Proofs.Wheel.Members

/-! Declared modules in the wheel.

From the compilers to the wheel a module passes through staging, which may copy files over it,
and through packing, which takes what is there. When a wheel is made, every module that the
compilers left where its path says, and that no file is staged over, is in the wheel with its
bytes (`wheel_holds_modules`). -/
namespace StableWheel

open FileSystem (KeepsTree)

/-! ### The commands, taken apart -/

theorem describeEach_ok {platform : Platform} {package : Option String}
    (modules : List DeclaredModule) {specs : List ExtensionSpec} {s s' : Session}
    (h : (describeEach platform package modules).run s = (.ok specs, s')) :
    ExtensionSpec.describeAll platform package modules = .ok specs := by
  induction modules generalizing s s' specs with
  | nil =>
    cases h
    rfl
  | cons m rest ih =>
    rw [describeEach] at h
    obtain ⟨spec, s₀, hspec, h₀⟩ := Task.run_bind_ok h
    obtain ⟨_, s₁, hnote, h₁⟩ := Task.run_bind_ok h₀
    obtain ⟨more, s₂, hmore, h₂⟩ := Task.run_bind_ok h₁
    obtain ⟨rfl, -⟩ := Task.run_pure_ok h₂
    obtain ⟨hdescribed, -⟩ := Task.run_ofExcept_ok hspec
    have hrest := ih hmore
    unfold ExtensionSpec.describeAll at hrest ⊢
    rw [List.mapM_cons, mapError_ok hdescribed, hrest]
    rfl

theorem printEach_ok {ε : Type} (lines : List String) {u : Unit} {s s' : Session}
    (h : (printEach lines : Task ε Unit).run s = (.ok u, s')) : s'.files = s.files := by
  induction lines generalizing s with
  | nil =>
    cases h
    rfl
  | cons line rest ih =>
    rw [printEach, Task.run_bind, Task.run_print] at h
    exact ih (s := { s with printed := s.printed ++ [line] }) h

theorem runPass_ok {t : Toolchain} {b done : BuildPass} {s s' : Session}
    (h : (runPass t b).run s = (.ok done, s')) : b.run t s = (.ok (), done, s') := by
  rw [runPass, Task.run_ofRun] at h
  split at h
  · next heq =>
    cases h
    exact heq
  · cases h

theorem buildProject_ok {h : Host} {options : BuildOptions} {p : Plan} {s s' : Session}
    (hb : (buildProject h options).run s = (.ok p, s')) :
    ∃ ready done built, (plan h options).run s = (.ok p, ready) ∧
      (p.pass h.platform options.verbose).run (.ofHost h h.target options.verbose) ready =
        (.ok (), done, built) ∧ s'.files = built.files := by
  rw [buildProject] at hb
  obtain ⟨p', ready, hplan, h₀⟩ := Task.run_bind_ok hb
  obtain ⟨done, built, hpass, h₁⟩ := Task.run_bind_ok h₀
  obtain ⟨_, s₂, hcompiled, h₂⟩ := Task.run_bind_ok h₁
  have hlast : p = p' ∧ s'.files = s₂.files := by
    split at h₂
    · obtain ⟨_, s₃, hstaged, h₃⟩ := Task.run_bind_ok h₂
      obtain ⟨hp, hs'⟩ := Task.run_pure_ok h₃
      exact ⟨hp, by rw [hs', printEach_ok _ hstaged]⟩
    · obtain ⟨hp, hs'⟩ := Task.run_pure_ok h₂
      exact ⟨hp, by rw [hs']⟩
  obtain ⟨rfl, hfiles⟩ := hlast
  exact ⟨ready, done, built, hplan, runPass_ok hpass,
    hfiles.trans (printEach_ok _ hcompiled)⟩

theorem packProject_ok {h : Host} {options : BuildOptions} {dist : Option Path}
    {platform : Option String} {wheel : Path} {s s' : Session}
    (hb : (packProject h options dist platform).run s = (.ok wheel, s')) :
    ∃ p ready done built packing w target, (plan h options).run s = (.ok p, ready) ∧
      (p.pass h.platform options.verbose).run (.ofHost h h.target options.verbose) ready =
        (.ok (), done, built) ∧
      packing.files = built.files ∧
      (Wheel.pack w (p.context h.platform).buildLib target).run packing = (.ok wheel, s') := by
  rw [packProject] at hb
  obtain ⟨p, s₀, hbuild, h₀⟩ := Task.run_bind_ok hb
  obtain ⟨ready, done, built, hplan, hrun, hfiles⟩ := buildProject_ok hbuild
  dsimp only at h₀
  have hnoted : ∃ s₁, s₁.files = s₀.files ∧
      ((p.wheel (chosenPlatform h platform)).pack (p.context h.platform).buildLib
        (p.config.distDir h.environment p.root dist p.defaults)).run s₁ = (.ok wheel, s') := by
    split at h₀
    · obtain ⟨_, s₁, hnote, h₁⟩ := Task.run_bind_ok h₀
      refine ⟨s₁, ?_, Task.run_explain_ok h₁⟩
      unfold noteRewriting at hnote
      split at hnote
      · exact Task.run_note_ok hnote
      · rw [(Task.run_pure_ok hnote).2]
    · exact ⟨s₀, rfl, Task.run_explain_ok h₀⟩
  obtain ⟨s₁, hs₁, hpack⟩ := hnoted
  exact ⟨p, ready, done, built, s₁, _, _, hplan, hrun, hs₁.trans hfiles, hpack⟩

/-- A run of `bdist-wheel` that ends well has made the wheel that it names. -/
theorem bdistWheel_ok {h : Host} {options : BuildOptions} {dist : Option Path}
    {platform : Option String} {debug : Bool} {fs : FileSystem} {o : Outcome}
    (ho : o = Request.run h ⟨.bdistWheel options dist platform, debug⟩ fs) (hok : o.exit = 0) :
    ∃ wheel s, (packProject h options dist platform).run (h.session fs) = (.ok wheel, s) ∧
      o.printed.getLast? = some ("Created " ++ wheel.text) ∧ o.session.files = s.files := by
  rw [Request.run, Command.run, Task.run_bind] at ho
  rcases hp : (packProject h options dist platform).run (h.session fs) with ⟨e | wheel, s⟩
  · rw [hp] at ho
    rw [ho] at hok
    cases hok
  · rw [hp] at ho
    exact ⟨wheel, s, rfl, by rw [ho]; simp, by rw [ho]; simp⟩

/-- The modules of a plan are those that the project declares. -/
theorem plan_ok {h : Host} {options : BuildOptions} {p : Plan} {s s' : Session}
    (hp : (plan h options).run s = (.ok p, s')) :
    ExtensionSpec.describeAll h.platform p.config.package.extPackage p.config.extensions =
      .ok p.specs := by
  rw [plan, Task.run_bind, Task.run_files] at hp
  obtain ⟨root, s₀, hroot, h₀⟩ := Task.run_bind_ok hp
  obtain ⟨config, s₁, hconfig, h₁⟩ := Task.run_bind_ok h₀
  rw [Task.run_bind, Task.run_files] at h₁
  obtain ⟨defaults, s₂, hdefaults, h₂⟩ := Task.run_bind_ok h₁
  obtain ⟨specs, s₃, hspecs, h₃⟩ := Task.run_bind_ok h₂
  rw [Task.run_bind, Task.run_files] at h₃
  obtain ⟨_, s₄, hsources, h₄⟩ := Task.run_bind_ok h₃
  have hlast : ∃ report buildDir, p = ⟨root, config, defaults, buildDir, specs, report⟩ := by
    dsimp only at h₄
    split at h₄
    · obtain ⟨report, s₅, hreport, h₅⟩ := Task.run_bind_ok h₄
      exact ⟨report, _, (Task.run_pure_ok h₅).1⟩
    · obtain ⟨report, s₅, hreport, h₅⟩ := Task.run_bind_ok h₄
      exact ⟨report, _, (Task.run_pure_ok h₅).1⟩
  obtain ⟨report, buildDir, rfl⟩ := hlast
  exact describeEach_ok _ hspecs

namespace BuildPass

theorem buildPackages_ok {b b' : BuildPass} {s s' : Session} {u : Unit}
    (h : buildPackages b s = (.ok u, b', s')) : ∃ files between, between.files = s.files ∧
      (b.layout.stage b.context.root b.context.buildLib).run between = (.ok files, s') := by
  unfold buildPackages at h
  dsimp only at h
  split at h
  · next files _ heq =>
    cases h
    exact ⟨files, _, announce_files b _ s, heq⟩
  · cases h

theorem buildExtensions_plan {t : Toolchain} {b b' : BuildPass} {s s' : Session} {u : Unit}
    (h : buildExtensions t b s = (.ok u, b', s')) :
    b'.context = b.context ∧ b'.layout = b.layout := by
  rcases buildExtensions_ok h with ⟨-, rfl, -⟩ | ⟨artifacts, hd⟩
  · exact ⟨rfl, rfl⟩
  · cases hd.outcome
    exact ⟨rfl, rfl⟩

/-- A pass that came to its end: its modules were compiled, if it has any, and then its packages
were staged. -/
theorem run_ok {t : Toolchain} {b done : BuildPass} {s s' : Session}
    (h : b.run t s = (.ok (), done, s')) : ∃ compiled files between,
      (b.extensions = [] → compiled = s) ∧
      (b.extensions ≠ [] → ∃ b', buildExtensions t b s = (.ok (), b', compiled)) ∧
      between.files = compiled.files ∧
      (b.layout.stage b.context.root b.context.buildLib).run between = (.ok files, s') := by
  cases he : b.extensions with
  | nil =>
    have hnone : b.hasExtensions = false := by simp [hasExtensions, he]
    simp only [run, hnone, Bool.false_eq_true, if_false] at h
    obtain ⟨files, between, hfiles, hstage⟩ := buildPackages_ok h
    exact ⟨s, files, between, fun _ => rfl, fun hne => absurd rfl hne, hfiles, hstage⟩
  | cons spec rest =>
    have hsome : b.hasExtensions = true := by simp [hasExtensions, he]
    simp only [run, hsome, if_true] at h
    rcases ho : buildExtensions t b s with ⟨_ | _, b', compiled⟩
    · rw [ho] at h
      cases h
    · rw [ho] at h
      obtain ⟨files, between, hfiles, hstage⟩ := buildPackages_ok h
      obtain ⟨hcontext, hlayout⟩ := buildExtensions_plan ho
      rw [hcontext, hlayout] at hstage
      exact ⟨compiled, files, between, fun hnil => absurd hnil (by simp),
        fun _ => ⟨b', rfl⟩, hfiles, hstage⟩

end BuildPass

/-! ### What the wheel holds -/

/-- A file is where its path says: the path leads to it without a link at its end, and spells
the names that lead to it from a directory. -/
structure InPlace (fs : FileSystem) (lib artifact : Path) (place : Location) (f : File) :
    Prop where
  leads : fs.find artifact .kept = .ok (place, .file f)
  spells : ∃ tree names, fs.treeAt lib = .ok (some tree) ∧ place = tree ++ names ∧
    artifact.relativeTo lib = some ⟨Text.join "/" names⟩

/-- How a wheel came about: from a plan, by way of what the compilers had left when they were
done and the copies that staging made, to the members of the wheel. -/
structure Packed (h : Host) (options : BuildOptions) (fs : FileSystem) (o : Outcome) (p : Plan)
    (compiled : Session) (copies : List PackageLayout.Copy) (members : List Archive.Member) :
    Prop where
  declared : ExtensionSpec.describeAll h.platform p.config.package.extPackage
    p.config.extensions = .ok p.specs
  built : ∃ ready, (plan h options).run (h.session fs) = (.ok p, ready) ∧
    (p.specs ≠ [] → ∃ b, BuildPass.buildExtensions (.ofHost h h.target options.verbose)
      (p.pass h.platform options.verbose) ready = (.ok (), b, compiled))
  staged : ∃ staged, PackageLayout.Rounds
    (p.config.package.layout.rounds (p.context h.platform).root (p.context h.platform).buildLib)
    compiled.files copies staged
  written : ∃ wheel temporary moving place,
    o.printed.getLast? = some ("Created " ++ wheel.text) ∧
    FileSystem.moveFile moving temporary (Packing.archiveFile members) wheel =
      (.ok (), o.session.files) ∧
    moving.resolve wheel .kept = .ok place ∧
    o.session.files.lookup place = some (.file (Packing.archiveFile members))

theorem packed_keepsTree {h : Host} {options : BuildOptions} {fs : FileSystem} {p : Plan}
    {ready compiled : Session} {b : BuildPass}
    (hh : ∀ place arguments fs, KeepsTree fs (h.behave place arguments fs).2)
    (ht : fs.IsTree) (hplan : (plan h options).run (h.session fs) = (.ok p, ready))
    (hnone : b.extensions = [] → compiled = ready)
    (hsome : b.extensions ≠ [] → ∃ b', BuildPass.buildExtensions
      (.ofHost h h.target options.verbose) b ready = (.ok (), b', compiled)) :
    compiled.files.IsTree := by
  have hready : ready.files.IsTree := by
    have hmoves := plan_moves FileSystem.keepsTree_composes (fun arguments _ place fs =>
      hh place arguments fs) options (h.session fs)
    rw [hplan] at hmoves
    exact hmoves ht
  by_cases hne : b.extensions = []
  · rw [hnone hne]
    exact hready
  · obtain ⟨b', hbuilt⟩ := hsome hne
    refine BuildPass.buildExtensions_moves FileSystem.keepsTree_composes ?_ hbuilt hready
    exact fun spec _ n s => Toolchain.ofHost_moves FileSystem.keepsTree_composes
      FileSystem.createDirectories_keepsTree (fun c place fs _ => hh place _ fs) n s

/-- **A wheel holds the modules that the compilers left in place.** Whatever the project, the
machine and its compilers are: when `bdist-wheel` ends well, every declared module that is where
its path says once the compilers are done, and that no staged file is copied over, is a member of
the wheel, under its path below the build tree and with its bytes, and no other member has that
name. All that is asked of the machine is that files are a tree and that programs leave it one. -/
theorem wheel_holds_modules (h : Host) (options : BuildOptions) (dist : Option Path)
    (platform : Option String) (debug : Bool) (fs : FileSystem) (ht : fs.IsTree)
    (hh : ∀ place arguments fs, KeepsTree fs (h.behave place arguments fs).2)
    (hok : (Request.run h ⟨.bdistWheel options dist platform, debug⟩ fs).exit = 0) :
    ∃ p compiled copies members,
      Packed h options fs (Request.run h ⟨.bdistWheel options dist platform, debug⟩ fs) p
        compiled copies members ∧
      ∀ spec ∈ p.specs, ∀ place f,
        InPlace compiled.files (p.context h.platform).buildLib
          (spec.artifactPath (p.context h.platform).buildLib h.platform) place f →
        (∀ c ∈ copies, c.place ≠ place) →
        ∃ relative,
          (spec.artifactPath (p.context h.platform).buildLib h.platform).relativeTo
            (p.context h.platform).buildLib = some relative ∧
          Holds members relative.text f.content.bytes := by
  obtain ⟨wheel, s, hpacked, hprinted, hleft⟩ := bdistWheel_ok rfl hok
  obtain ⟨p, ready, done, last, packing, w, target, hplan, hrun, hpacking, hpack⟩ :=
    packProject_ok hpacked
  obtain ⟨compiled, files, between, hnone, hsome, hbetween, hstage⟩ := BuildPass.run_ok hrun
  obtain ⟨copies, hrounds, -⟩ := PackageLayout.stage_ok hstage
  obtain ⟨members, temporary, moving, hmoved, hholds⟩ := Wheel.pack_ok hpack
  rw [← hleft] at hmoved
  obtain ⟨place, hplace, hthere⟩ := Packing.moveFile_ok hmoved
  rw [hbetween] at hrounds
  have htree : compiled.files.IsTree := packed_keepsTree hh ht hplan hnone hsome
  have hgrows : FileSystem.Grows compiled.files packing.files := by
    rw [hpacking]
    exact hrounds.copies.grows htree
  refine ⟨p, compiled, copies, members, ⟨plan_ok hplan, ⟨ready, hplan, hsome⟩,
    ⟨last.files, hrounds⟩, ⟨wheel, temporary, moving, place, hprinted, hmoved, hplace, hthere⟩⟩, ?_⟩
  intro spec _ place f hin hfree
  obtain ⟨tree, names, hat, rfl, hrelative⟩ := hin.spells
  refine ⟨_, hrelative, hholds tree (hgrows.treeAt hat) names f.content.bytes ?_⟩
  rw [hpacking, hrounds.copies.bytesAt, PackageLayout.settled_of_untouched _ hfree]
  exact FileSystem.bytesAt_file (FileSystem.find_iff.mp hin.leads).2

/-! ### Compilers that end well -/

/-- What an interpreter says of itself. -/
def sampleReport : String :=
  "\x7b\"implementation\":\"cpython\",\"major\":3,\"minor\":8,"
    ++ "\"include_dir\":\"\",\"platform\":\"linux\",\"base_prefix\":\"\"\x7d"

/-- A machine with an interpreter and a compiler that always ends well, whatever it does. -/
def sampleHost (compile : List String → FileSystem → FileSystem) : Host where
  environment _ := none
  accountHome := none
  target := "x86_64-unknown-linux-gnu"
  system := "linux"
  processor := "x86_64"
  takesSlashes _ := none
  behave place arguments fs :=
    if place = ["bin", "cc"] then
      (⟨some 0, ByteArray.empty, ByteArray.empty⟩, compile arguments fs)
    else (⟨some 0, sampleReport.toUTF8, ByteArray.empty⟩, fs)

/-- Writes the module that is asked for. -/
def writeModule (arguments : List String) (fs : FileSystem) : FileSystem :=
  (fs.write (BuildPass.outputIn arguments) ⟨.data ⟨#[7]⟩, true⟩).2

/-- A project with a module `_a` and whatever else is given. -/
def sampleProject (description : String) (more : List (Location × Entry)) : FileSystem where
  entries :=
    [(["bin"], .directory), (["bin", "cc"], .file ⟨.data ByteArray.empty, true⟩),
      (["bin", "python3"], .file ⟨.data ByteArray.empty, true⟩), (["p"], .directory),
      (["p", "p.c"], .file ⟨.data ByteArray.empty, false⟩),
      (["p", "b.c"], .file ⟨.data ByteArray.empty, false⟩),
      (["p", "wheelwright.toml"], .file ⟨.data
        ("[package]\nname='demo'\nversion='1'\n" ++ description
          ++ "[[extension]]\nname='_a'\nparser-source='p.c'\nbinding-source='b.c'\n").toUTF8,
        false⟩)] ++ more
  workingDirectory := ["p"]

/-- What comes of `bdist-wheel` there. -/
def sampleRun (compile : List String → FileSystem → FileSystem) (fs : FileSystem) : Outcome :=
  Request.run (sampleHost compile) ⟨.bdistWheel ⟨⟨"."⟩, none, none, false⟩ none none, false⟩ fs

/-- The members of the wheel that it makes. -/
def membersIn (o : Outcome) : List Archive.Member :=
  match o.session.files.lookup ["p", "dist", "demo-1-cp38-abi3-linux.whl"] with
  | some (.file ⟨.archive members, _⟩) => members
  | _ => []

def contentOf (o : Outcome) (name : String) : Option ByteArray :=
  ((membersIn o).find? fun m => m.name == name).map (·.content)

/-- A compiler that writes nothing. -/
def idleRun : Outcome := sampleRun (fun _ fs => fs) (sampleProject "" [])

/-- An older build of the module among the data files of its package. -/
def stagedOverRun : Outcome :=
  sampleRun writeModule (sampleProject
    "packages=['demo']\next-package='demo'\npackage-data=\x7bdemo=['*.so']\x7d\n"
    [(["p", "demo"], .directory),
      (["p", "demo", "_a.abi3.so"], .file ⟨.data ⟨#[1]⟩, true⟩)])

/-- A link where the module is to be. -/
def linkedRun : Outcome :=
  sampleRun writeModule (sampleProject ""
    [(["p", "build"], .directory), (["p", "build", "lib"], .directory),
      (["p", "build", "lib", "_a.abi3.so"], .link ⟨"/p/kept.so"⟩)])

/-- A wheel is made without its module, or with other bytes than the compiler wrote. -/
theorem wheel_lacks_modules :
    (idleRun.exit = 0 ∧ contentOf idleRun "_a.abi3.so" = none) ∧
      (stagedOverRun.exit = 0 ∧ contentOf stagedOverRun "demo/_a.abi3.so" = some ⟨#[1]⟩) ∧
      linkedRun.exit = 0 ∧ contentOf linkedRun "_a.abi3.so" = none := by
  decide +kernel

theorem sampleProject_isTree : (sampleProject "" []).IsTree :=
  FileSystem.isTree_of_entries (by decide) (by decide)

theorem sampleHost_keepsTree (place : Location) (arguments : List String) (fs : FileSystem) :
    KeepsTree fs ((sampleHost writeModule).behave place arguments fs).2 := by
  show KeepsTree fs (if place = ["bin", "cc"] then _ else _ : Finished × FileSystem).2
  split
  · exact FileSystem.write_keepsTree fs _ _
  · exact fun h => h

theorem sampleRun_ok :
    (sampleRun writeModule (sampleProject "" [])).exit = 0 ∧
      contentOf (sampleRun writeModule (sampleProject "" [])) "_a.abi3.so" = some ⟨#[7]⟩ := by
  decide +kernel

/-- What is found out about the project before its module is compiled. -/
def samplePlan : Except CommandError Plan × Session :=
  (plan (sampleHost writeModule) ⟨⟨"."⟩, none, none, false⟩).run
    ((sampleHost writeModule).session (sampleProject "" []))

/-- The files when the compiler is done. -/
def sampleCompiled : FileSystem :=
  match samplePlan with
  | (.ok p, ready) =>
    (BuildPass.buildExtensions (.ofHost (sampleHost writeModule)
      (sampleHost writeModule).target false) (p.pass (sampleHost writeModule).platform false)
      ready).2.2.files
  | (.error _, s) => s.files

/-- One module is described, nothing is staged, and the compiler leaves the module. -/
theorem sampleCompiled_ok :
    (samplePlan.1.toOption.map fun p =>
      (p.specs.map (·.artifactPath (p.context (sampleHost writeModule).platform).buildLib
        (sampleHost writeModule).platform),
        (p.context (sampleHost writeModule).platform).buildLib,
        p.config.package.layout.packages)) =
      some ([⟨"/p/build/lib/_a.abi3.so"⟩], ⟨"/p/build/lib"⟩, []) ∧
    sampleCompiled.find ⟨"/p/build/lib/_a.abi3.so"⟩ .kept =
      .ok (["p", "build", "lib", "_a.abi3.so"], .file ⟨.data ⟨#[7]⟩, true⟩) ∧
    sampleCompiled.treeAt ⟨"/p/build/lib"⟩ = .ok (some ["p", "build", "lib"]) := by
  decide +kernel

theorem sample_relative : (Path.mk "/p/build/lib/_a.abi3.so").relativeTo ⟨"/p/build/lib"⟩ =
    some ⟨"_a.abi3.so"⟩ := by decide +kernel

theorem sampleCompiled_inPlace :
    InPlace sampleCompiled ⟨"/p/build/lib"⟩ ⟨"/p/build/lib/_a.abi3.so"⟩
      ["p", "build", "lib", "_a.abi3.so"] ⟨.data ⟨#[7]⟩, true⟩ where
  leads := sampleCompiled_ok.2.1
  spells := ⟨["p", "build", "lib"], ["_a.abi3.so"], sampleCompiled_ok.2.2, rfl, sample_relative⟩

/-- The module is in the wheel, with the byte that the compiler wrote. -/
theorem sample_wheel_holds_module :
    ∃ p compiled copies members,
      Packed (sampleHost writeModule) ⟨⟨"."⟩, none, none, false⟩ (sampleProject "" [])
        (sampleRun writeModule (sampleProject "" [])) p compiled copies members ∧
      Holds members "_a.abi3.so" ⟨#[7]⟩ := by
  obtain ⟨p, compiled, copies, members, hpacked, hholds⟩ :=
    wheel_holds_modules (sampleHost writeModule) ⟨⟨"."⟩, none, none, false⟩ none none false
      (sampleProject "" []) sampleProject_isTree sampleHost_keepsTree sampleRun_ok.1
  refine ⟨p, compiled, copies, members, hpacked, ?_⟩
  obtain ⟨ready, hplan, hbuilt⟩ := hpacked.built
  have hplanned : samplePlan = (.ok p, ready) := hplan
  have hfacts := sampleCompiled_ok.1
  rw [hplanned] at hfacts
  simp only [Except.toOption, Option.map_some, Option.some.injEq, Prod.mk.injEq] at hfacts
  obtain ⟨hpaths, hlib, hpackages⟩ := hfacts
  obtain ⟨spec, hspecs, hpath⟩ := List.map_eq_singleton_iff.mp hpaths
  obtain ⟨b, hcompiled⟩ := hbuilt (by rw [hspecs]; simp)
  have hfiles : sampleCompiled = compiled.files := by
    unfold sampleCompiled
    rw [hplanned]
    dsimp only at hcompiled ⊢
    rw [hcompiled]
  have hnone : copies = [] := by
    obtain ⟨staged, hrounds⟩ := hpacked.staged
    rw [PackageLayout.rounds, hpackages, List.flatMap_nil] at hrounds
    cases hrounds
    rfl
  obtain ⟨relative, hrelative, hmember⟩ :=
    hholds spec (by rw [hspecs]; exact List.mem_singleton_self spec)
      ["p", "build", "lib", "_a.abi3.so"] ⟨.data ⟨#[7]⟩, true⟩
      (by rw [hpath, hlib, ← hfiles]; exact sampleCompiled_inPlace)
      (by rw [hnone]; exact fun c hc => absurd hc List.not_mem_nil)
  rw [hpath, hlib] at hrelative
  obtain rfl : ⟨"_a.abi3.so"⟩ = relative := Option.some.inj (sample_relative.symm.trans hrelative)
  exact hmember

end StableWheel
