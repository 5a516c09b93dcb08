import StableWheel.Proofs.Build.Alongside
import StableWheel.Proofs.Command.Confined
import StableWheel.Proofs.Package.Alongside
import StableWheel.Proofs.Wheel.Alike

/-! What earlier passes leave in wheels.

Nothing empties the build directory before a pass, and the whole tree for results is packed. So
two machines that differ in what is left in their build directories do the same work and stay
abreast (`built_abreast`), but what neither pass touches ends up in their wheels: these are alike
exactly when it is the same in both (`wheels_alike_iff`). -/
namespace StableWheel
open FileSystem

/-! ### One wheel -/

section
variable {h : Host} {options : BuildOptions} {dist : Option Path} {platform : Option String}
  {debug : Bool} {fs : FileSystem} {p : Plan} {ready : Session}

/-- A run that ends well has built its plan and packed what was built. -/
theorem bdistWheel_packs (hp : (plan h options).run (h.session fs) = (.ok p, ready))
    (hok : (Request.run h ⟨.bdistWheel options dist platform, debug⟩ fs).exit = 0) :
    p.Builds h options ready ∧ ∃ packing wheel left, packing.files = p.built h options ready ∧
      ((p.wheel (chosenPlatform h platform)).pack (p.context h.platform).buildLib
        (p.distDir h dist)).run packing = (.ok wheel, left) ∧
      (Request.run h ⟨.bdistWheel options dist platform, debug⟩ fs).session.files = left.files := by
  obtain ⟨wheel, left, hrun, -, hfiles⟩ := bdistWheel_ok rfl hok
  rcases packProject_ends hp dist platform with
    ⟨e, stopped, hstop, -⟩ | ⟨hbuilds, packing, hpacking, hpack⟩
  · rw [hstop] at hrun
    cases hrun
  · rw [hpack] at hrun
    exact ⟨hbuilds, packing, wheel, left, hpacking, Task.run_explain_ok hrun, hfiles⟩

/-- Where no links are, the tree that is packed is where the path of the tree heads. -/
theorem treeAt_inside {top : Location} {buildDir : Path} {tree : Option Location}
    (hbuild : fs.Heads .followed buildDir top) (hlinks : Unlinked fs top)
    (htree : fs.treeAt (buildDir.join ⟨"lib"⟩) = .ok tree) : tree = some (top ++ ["lib"]) := by
  obtain ⟨⟨place, n⟩, hfound, htree⟩ := bind_ok htree
  obtain ⟨hr, hl⟩ := find_iff.mp hfound
  have hlib := (Continues.refl buildDir).join (q := ⟨"lib"⟩) rfl
  have hname : Step.named ⟨"lib"⟩ = [.enter "lib"] := Step.named_of_name (by decide)
  obtain rfl : place = top ++ ["lib"] :=
    hlib.inside hbuild hlinks rfl (by simp [hname]) (heads_of_resolve hr)
  cases n with
  | link target => exact absurd hl (hlinks _ target (List.prefix_append top _))
  | file f =>
    cases htree
    rfl
  | directory =>
    cases htree
    rfl

theorem temporaryName_ne_lib (n : Nat) : Packing.temporaryName n ≠ "lib" := by
  intro h
  have hfirst := congrArg (fun s : String => s.toList.head?) h
  simp [Packing.temporaryName] at hfirst

/-- The temporary file of a wheel is no link, and takes the place of none. -/
theorem Packing.Begun.sameLinks {room : Location} {name : String} {distDir : Path}
    {started : Session} (hbegun : Packing.Begun fs distDir room name started) :
    SameLinks fs started.files := by
  refine (createDirectories_makes fs distDir).grows.sameLinks.trans ⟨by rw [hbegun.files]; rfl,
    fun place target => ?_⟩
  rw [hbegun.files]
  by_cases ho : place = room ++ [name]
  · rw [ho, lookup_put_self _ _ _ (by simp), hbegun.fresh]
    simp
  · rw [lookup_put_of_ne _ _ _ _ ho]

/-- The wheel of a run that ends well holds the files of the tree for results, whoever put them
there, unless it is made in that tree itself. -/
theorem bdistWheel_gathers {top : Location}
    (hp : (plan h options).run (h.session fs) = (.ok p, ready))
    (hok : (Request.run h ⟨.bdistWheel options dist platform, debug⟩ fs).exit = 0)
    (hbuild : fs.Heads .followed p.buildDir top)
    (hlinks : SameLinks fs (p.built h options ready)) (hunlinked : Unlinked fs top)
    (hdist : ∀ room, fs.Heads .followed (p.distDir h dist) room → ¬ top ++ ["lib"] <+: room) :
    ∃ list staged, Gathered (p.built h options ready) (top ++ ["lib"]) list staged ∧
      Wheel.Written (p.distDir h dist)
        ((p.distDir h dist).join ⟨(p.wheel (chosenPlatform h platform)).fileName⟩)
        (p.built h options ready)
        (Request.run h ⟨.bdistWheel options dist platform, debug⟩ fs).session.files
        ((p.wheel (chosenPlatform h platform)).described staged) := by
  obtain ⟨-, packing, wheel, left, hpacking, hrun, hfiles⟩ := bdistWheel_packs hp hok
  obtain ⟨room, name, started, tree, staged, hbegun, hwritten, htree, hnodup, -, htaken⟩ :=
    Wheel.pack_written hrun
  have hpath := Wheel.pack_path hrun
  rw [hpacking] at hbegun hwritten
  have hstarted : SameLinks fs started.files := hlinks.trans hbegun.sameLinks
  have hplain : Unlinked started.files top := fun place target hin hl =>
    hunlinked place target hin ((hstarted.link place target).mp hl)
  rw [p.context_buildLib] at htree
  have hat := treeAt_inside (hstarted.heads hbuild) hplain htree
  -- the temporary file is neither in the tree nor the tree itself
  have hapart : ¬ top ++ ["lib"] <+: room ++ [name] := by
    rw [List.prefix_concat_iff]
    rintro (hsame | hin)
    · obtain ⟨n, hname⟩ := hbegun.named
      exact temporaryName_ne_lib n (hname.symm.trans (List.cons.inj
        (List.append_inj' hsame rfl).2).1.symm)
    · refine hdist room ?_ hin
      exact (hlinks.trans (createDirectories_makes _ _).grows.sameLinks).symm.heads
        (heads_of_resolve hbegun.leads)
  rw [List.map_append, List.map_append] at hnodup
  have hgathered := gathered_of_taken (htaken _ hat)
    (List.nodup_append.mp (List.nodup_append.mp hnodup).1).1 hapart
  refine ⟨_, staged, hgathered.congr fun names => hbegun.bytesAt fun heq => ?_, ?_⟩
  · exact hapart ⟨names, heq⟩
  · rw [hfiles, ← hpath]
    exact hwritten

end

/-! ### Two passes -/

section
variable {h : Host} {options : BuildOptions} {p : Plan} {top : Location}
  {start start' : FileSystem} {ready ready' : Session}

/-- Passes over the same plan keep file systems abreast that differ in the build directory only. -/
theorem built_abreast
    (hsources : ∀ r ∈ p.config.package.layout.rounds p.root (p.context h.platform).buildLib,
      r.Outside start top)
    (hcompilers : h.Hermetic start top (p.context h.platform) p.specs)
    (habreast : Abreast top start start' ready.files ready'.files)
    (hbuilds : p.Builds h options ready) (hbuilds' : p.Builds h options ready') :
    Abreast top start start' (p.built h options ready) (p.built h options ready') := by
  unfold Plan.Builds at hbuilds hbuilds'
  unfold Plan.built
  rcases hrun : (p.pass h.platform options.verbose).run (.ofHost h h.target options.verbose) ready
    with ⟨r, done, left⟩
  rcases hrun' : (p.pass h.platform options.verbose).run (.ofHost h h.target options.verbose) ready'
    with ⟨r', done', left'⟩
  rw [hrun] at hbuilds
  rw [hrun'] at hbuilds'
  cases hbuilds
  cases hbuilds'
  obtain ⟨compiled, files, between, hnone, hsome, hbetween, hstage⟩ := BuildPass.run_ok hrun
  obtain ⟨compiled', files', between', hnone', hsome', hbetween', hstage'⟩ := BuildPass.run_ok hrun'
  have hcompiled : Abreast top start start' compiled.files compiled'.files := by
    by_cases he : (p.pass h.platform options.verbose).extensions = []
    · rwa [hnone he, hnone' he]
    · obtain ⟨b, hb⟩ := hsome he
      obtain ⟨b', hb'⟩ := hsome' he
      exact BuildPass.buildExtensions_abreast hcompilers rfl rfl (fun _ hspec => hspec) habreast
        hb hb'
  obtain ⟨cs, hrounds, -⟩ := PackageLayout.stage_ok hstage
  obtain ⟨cs', hrounds', -⟩ := PackageLayout.stage_ok hstage'
  rw [hbetween] at hrounds
  rw [hbetween'] at hrounds'
  refine PackageLayout.Rounds.abreast hcompiled (fun r hr => hsources r ?_) hrounds hrounds'
  rw [← p.context_root h.platform]
  exact hr

end

/-! ### What is left over -/

section
variable {top : Location} {start start' a b : FileSystem} {tree : Location}
  {list list' : List Location} {staged : List Archive.Member}

/-- If the same is staged from trees that are abreast, files that were there from the start and were
left alone in both are the same. -/
theorem Gathered.left_alike (h : Gathered a tree list staged) (h' : Gathered b tree list' staged)
    (htidy : Tidy start) (htidy' : Tidy start') (habreast : Abreast top start start' a b)
    {names : Location} (hkept : a.lookup (tree ++ names) = start.lookup (tree ++ names))
    (hkept' : b.lookup (tree ++ names) = start'.lookup (tree ++ names)) {bytes : ByteArray}
    (hbytes : start.bytesAt (tree ++ names) = some bytes) :
    start'.bytesAt (tree ++ names) = some bytes := by
  rw [← bytesAt_congr hkept] at hbytes
  obtain ⟨names', hjoin, hbytes'⟩ := h.counterpart h' hbytes
  have hnamed : ∀ {fs : FileSystem} {names : Location} {bytes : ByteArray}, Tidy fs →
      fs.bytesAt (tree ++ names) = some bytes → Named names := by
    intro fs names bytes hfs hb name hname
    obtain ⟨f, hl, -⟩ := mem_entries_of_bytesAt hb
    exact hfs.lookup_named hl name (List.mem_append_right tree hname)
  -- the counterpart is there in both, or it was there from the start as well
  obtain rfl : names' = names := by
    rcases habreast.lookup (tree ++ names') with hsame | ⟨-, hkept''⟩
    · rw [← bytesAt_congr hsame] at hbytes'
      exact h.eq_of_join (by rw [hbytes']; rfl) (by rw [hbytes]; rfl) hjoin
    · rw [bytesAt_congr hkept''] at hbytes'
      rw [bytesAt_congr hkept] at hbytes
      exact (hnamed htidy' hbytes').eq_of_join (hnamed htidy hbytes) hjoin
  rwa [← bytesAt_congr hkept']

/-- From trees that are abreast the same is staged exactly if what was left alone in both is the
same. -/
theorem staged_alike_iff {staged' : List Archive.Member} (h : Gathered a tree list staged)
    (h' : Gathered b tree list' staged') (htidy : Tidy start) (htidy' : Tidy start')
    (habreast : Abreast top start start' a b) :
    staged = staged' ↔ ∀ names, a.lookup (tree ++ names) = start.lookup (tree ++ names) →
      b.lookup (tree ++ names) = start'.lookup (tree ++ names) →
      start.bytesAt (tree ++ names) = start'.bytesAt (tree ++ names) := by
  constructor
  · rintro rfl names hkept hkept'
    rcases hbytes : start.bytesAt (tree ++ names) with _ | bytes
    · rcases hbytes' : start'.bytesAt (tree ++ names) with _ | bytes'
      · rfl
      · rw [h'.left_alike h htidy' htidy habreast.symm hkept' hkept hbytes'] at hbytes
        cases hbytes
    · exact (h.left_alike h' htidy htidy' habreast hkept hkept' hbytes).symm
  · intro hleft
    refine h.eq h' fun names => ?_
    rcases habreast.lookup (tree ++ names) with hsame | ⟨hkept, hkept'⟩
    · exact bytesAt_congr hsame
    · rw [bytesAt_congr hkept, bytesAt_congr hkept']
      exact hleft names hkept hkept'

end

/-- What the pass of a plan makes of files. -/
def Plan.builtOn (h : Host) (options : BuildOptions) (p : Plan) (fs : FileSystem) : FileSystem :=
  p.built h options ((plan h options).run (h.session fs)).2

/-- After `bdist-wheel` there is an archive of these members where the wheel was to be. -/
def Plan.Wheeled (h : Host) (options : BuildOptions) (dist : Option Path)
    (platform : Option String) (debug : Bool) (p : Plan) (fs : FileSystem)
    (members : List Archive.Member) : Prop :=
  Wheel.Written (p.distDir h dist)
    ((p.distDir h dist).join ⟨(p.wheel (chosenPlatform h platform)).fileName⟩)
    (p.builtOn h options fs)
    (Request.run h ⟨.bdistWheel options dist platform, debug⟩ fs).session.files members

/-- **Wheels are alike exactly when the same is left over.** Where two file systems agree on all but
what is in the build directory, and `bdist-wheel` does the same work on both and ends well, it makes
the same wheel of both exactly if each file in the tree for results that neither pass has touched is
the same in both: what one pass does not write over, the wheel is packed with. -/
theorem wheels_alike_iff {h : Host} (hquiet : h.Quiet) {options : BuildOptions}
    {dist : Option Path} {platform : Option String} {debug : Bool} {fs fs' : FileSystem} {p : Plan}
    (hp : Planned h options fs p) (hp' : Planned h options fs' p)
    {top : Location} (hbuild : fs.Heads .followed p.buildDir top) (hagree : Agree top fs fs')
    (hsources : ∀ r ∈ p.config.package.layout.rounds p.root (p.context h.platform).buildLib,
      r.Outside fs top)
    (hcompilers : h.Hermetic fs top (p.context h.platform) p.specs)
    (hdist : ∀ room, fs.Heads .followed (p.distDir h dist) room → ¬ top ++ ["lib"] <+: room)
    (hok : (Request.run h ⟨.bdistWheel options dist platform, debug⟩ fs).exit = 0)
    (hok' : (Request.run h ⟨.bdistWheel options dist platform, debug⟩ fs').exit = 0) :
    ∃ members members', p.Wheeled h options dist platform debug fs members ∧
      p.Wheeled h options dist platform debug fs' members' ∧
      (members = members' ↔ ∀ names,
        (p.builtOn h options fs).lookup (top ++ ["lib"] ++ names) =
          fs.lookup (top ++ ["lib"] ++ names) →
        (p.builtOn h options fs').lookup (top ++ ["lib"] ++ names) =
          fs'.lookup (top ++ ["lib"] ++ names) →
        fs.bytesAt (top ++ ["lib"] ++ names) = fs'.bytesAt (top ++ ["lib"] ++ names)) := by
  obtain ⟨ready, hready, hfiles⟩ := hp.ready hquiet
  obtain ⟨ready', hready', hfiles'⟩ := hp'.ready hquiet
  have habreast : Abreast top fs fs' (p.built h options ready) (p.built h options ready') := by
    have hstart : Abreast top fs fs' ready.files ready'.files := by
      rw [hfiles, hfiles']
      exact hagree.abreast
    exact built_abreast hsources hcompilers hstart (bdistWheel_packs hready hok).1
      (bdistWheel_packs hready' hok').1
  obtain ⟨list, staged, hgathered, hwritten⟩ := bdistWheel_gathers hready hok hbuild
    habreast.links hagree.left.unlinked hdist
  obtain ⟨list', staged', hgathered', hwritten'⟩ := bdistWheel_gathers hready' hok'
    (hagree.sameLinks.heads hbuild) habreast.symm.links hagree.right.unlinked
    fun room hroom => hdist room (hagree.sameLinks.symm.heads hroom)
  have hbuilt : p.builtOn h options fs = p.built h options ready := by rw [Plan.builtOn, hready]
  have hbuilt' : p.builtOn h options fs' = p.built h options ready' := by
    rw [Plan.builtOn, hready']
  refine ⟨_, _, hbuilt ▸ hwritten, hbuilt' ▸ hwritten', ?_⟩
  rw [Wheel.described_inj, hbuilt, hbuilt']
  exact staged_alike_iff hgathered hgathered' hagree.left.tidy hagree.right.tidy habreast

/-! ### A module that was deleted -/

/-- A package without any modules, built before, with all files removed from the tree for
results. -/
def emptyPackage : FileSystem :=
  strayProject "name='demo'\nversion='1'\npackages=['demo']\n"
    [(["p", "demo"], .directory), (["p", "build"], .directory), (["p", "build", "lib"], .directory),
      (["p", "build", "lib", "demo"], .directory)]

/-- The same, but for a module that it had when it was built. -/
def deletedModule : FileSystem :=
  emptyPackage.put ["p", "build", "lib", "demo", "old.py"] (.file ⟨.data ⟨#[2]⟩, false⟩)

/-- The names in the wheel that `bdist-wheel` makes there. -/
def packedNames (fs : FileSystem) : List String :=
  memberNames (sampleRequest.run (sampleHost writeModule) fs).session.files
    ["p", "dist", "demo-1-py3-none-any.whl"]

theorem emptyPackage_plain : Plain ["p", "build"] emptyPackage :=
  ⟨isTree_of_entries (by decide) (by decide), ⟨by decide, by decide, by decide⟩,
    unlinked_of_entries (by decide) _⟩

/-- A module that is no part of the project any more is packed, since an earlier pass has left it. -/
theorem deleted_module_is_packed :
    Agree ["p", "build"] emptyPackage deletedModule ∧
      (sampleRequest.run (sampleHost writeModule) emptyPackage).exit = 0 ∧
      (sampleRequest.run (sampleHost writeModule) deletedModule).exit = 0 ∧
      packedNames emptyPackage =
        ["demo-1.dist-info/METADATA", "demo-1.dist-info/WHEEL", "demo-1.dist-info/RECORD"] ∧
      packedNames deletedModule = ["demo/old.py", "demo-1.dist-info/METADATA",
        "demo-1.dist-info/WHEEL", "demo-1.dist-info/RECORD"] := by
  refine ⟨emptyPackage_plain.agree_put (p := ⟨"build/lib/demo/old.py"⟩) (by decide +kernel)
    (by decide) ⟨["lib", "demo", "old.py"], rfl⟩ _, ?_⟩
  decide +kernel

/-! ### A module that is written over -/

/-- A machine whose compiler writes the module that is asked for, or fails. -/
def carefulHost : Host :=
  { sampleHost writeModule with
    behave := fun _ arguments fs =>
      if arguments ∈ Interpreter.questions then
        (⟨some 0, sampleReport.toUTF8, ByteArray.empty⟩, fs)
      else
        let (written, after) := fs.write (BuildPass.outputIn arguments) ⟨.data ⟨#[7]⟩, true⟩
        (⟨some (if written.isOk then 0 else 1), ByteArray.empty, ByteArray.empty⟩, after) }

theorem carefulHost_quiet : carefulHost.Quiet := by
  intro arguments hasked place fs
  show (if arguments ∈ Interpreter.questions then _ else _ : Finished × FileSystem).2 = fs
  rw [if_pos hasked]

/-- What ends well either was a question or has written the module. -/
theorem carefulHost_cases {place : Location} {arguments : List String} {fs : FileSystem}
    (hok : (carefulHost.behave place arguments fs).1.succeeded = true) :
    (arguments ∈ Interpreter.questions ∧ (carefulHost.behave place arguments fs).2 = fs) ∨
    (arguments ∉ Interpreter.questions ∧ ∃ found,
      fs.resolve (BuildPass.outputIn arguments) .written = .ok found ∧
      fs.lookup found ≠ some .directory ∧ (carefulHost.behave place arguments fs).2 =
        fs.put found (.file ⟨.data ⟨#[7]⟩, true⟩)) := by
  by_cases hasked : arguments ∈ Interpreter.questions
  · exact .inl ⟨hasked, carefulHost_quiet arguments hasked place fs⟩
  · refine .inr ⟨hasked, ?_⟩
    have hbehave : carefulHost.behave place arguments fs =
        (⟨some (if (fs.write (BuildPass.outputIn arguments) ⟨.data ⟨#[7]⟩, true⟩).1.isOk then 0
            else 1), ByteArray.empty, ByteArray.empty⟩,
          (fs.write (BuildPass.outputIn arguments) ⟨.data ⟨#[7]⟩, true⟩).2) := by
      show (if _ then _ else _ : Finished × FileSystem) = _
      rw [if_neg hasked]
      rfl
    rw [hbehave] at hok ⊢
    rcases write_cases fs (BuildPass.outputIn arguments) ⟨.data ⟨#[7]⟩, true⟩ with
      ⟨e, hw⟩ | ⟨found, hr, hn, hw⟩
    · rw [hw] at hok
      cases hok
    · rw [hw]
      exact ⟨found, hr, hn, rfl⟩

theorem carefulHost_hermetic (fs : FileSystem) (top : Location) (context : CompileContext)
    (specs : List ExtensionSpec) : carefulHost.Hermetic fs top context specs where
  found a b _ _ :=
    (sampleHost_compiler writeModule a).trans (sampleHost_compiler writeModule b).symm
  compiled a b _ hagree spec _ c _ place place' _ _ hok hok' := by
    rcases carefulHost_cases hok with ⟨hasked, hleft⟩ | ⟨hasked, found, hr, hn, hleft⟩
    · rw [hleft, carefulHost_quiet _ hasked]
      exact hagree.abreast
    · rcases carefulHost_cases hok' with ⟨hasked', -⟩ | ⟨-, found', hr', hn', hleft'⟩
      · exact absurd hasked' hasked
      · obtain ⟨rfl, hput⟩ := hagree.abreast.put hr hn hr' hn' ⟨.data ⟨#[7]⟩, true⟩
        rwa [hleft, hleft']

/-- A module in a package, built before, with all files removed from the tree for results. -/
def clearedProject : FileSystem :=
  sampleProject "ext-package='demo'\npackages=['demo']\n"
    [(["p", "demo"], .directory), (["p", "build"], .directory), (["p", "build", "lib"], .directory),
      (["p", "build", "lib", "demo"], .directory)]

/-- The same, but for an older state of the module. -/
def olderModule : FileSystem :=
  clearedProject.put ["p", "build", "lib", "demo", "_a.abi3.so"] (.file ⟨.data ⟨#[2]⟩, true⟩)

/-- What `bdist-wheel` finds out about both. -/
def clearedPlan : Plan :=
  { tamePlan with
    config := ⟨⟨"demo", "1", none, none, some "demo", ⟨["demo"], [], []⟩⟩, [tameModule], .unset⟩ }

theorem clearedProject_unlinked : Unlinked clearedProject [] :=
  unlinked_of_entries (by decide) []

theorem clearedProject_plain : Plain ["p", "build"] clearedProject :=
  ⟨isTree_of_entries (by decide) (by decide), ⟨by decide, by decide, by decide⟩,
    unlinked_of_entries (by decide) _⟩

theorem clearedProject_aside :
    PackageLayout.Aside clearedProject ["p", "build"] ⟨"/p/demo"⟩ ["p", "demo"] where
  around := by
    have hsteps : Step.named ⟨"/p/demo"⟩ = ["p", "demo"].map .enter := by decide +kernel
    have haround := clearedProject_unlinked.around
      (show ¬ ["p", "build"] <+: [] ++ ["p", "demo"] by decide)
    rwa [hsteps]
  outside := by decide
  notAbove := by simp
  unlinked name target := clearedProject_unlinked _ target List.nil_prefix

theorem clearedPlan_outside : ∀ r ∈ clearedPlan.config.package.layout.rounds clearedPlan.root
    (clearedPlan.context carefulHost.platform).buildLib,
    r.Outside clearedProject ["p", "build"] := by
  have hnone : clearedPlan.config.package.layout.patterns "demo" = [] := by decide +kernel
  have hdirectory : clearedPlan.root.join (clearedPlan.config.package.layout.sourceDir "demo") =
      ⟨"/p/demo"⟩ := by decide +kernel
  intro r hr
  obtain ⟨package, hpackage, hr⟩ := List.mem_flatMap.mp hr
  obtain rfl : package = "demo" := List.mem_singleton.mp hpackage
  rw [PackageLayout.packageRounds, hnone, hdirectory, List.map_nil, List.mem_singleton] at hr
  rw [hr]
  exact clearedProject_aside.moduleRound _

/-- The older state of the module makes no difference for the wheel. -/
theorem older_module_is_replaced :
    ∃ members, clearedPlan.Wheeled carefulHost ⟨⟨"."⟩, none, none, false⟩ none none false
        clearedProject members ∧
      clearedPlan.Wheeled carefulHost ⟨⟨"."⟩, none, none, false⟩ none none false
        olderModule members := by
  have hp : Planned carefulHost ⟨⟨"."⟩, none, none, false⟩ clearedProject clearedPlan :=
    planned_iff.mpr (by decide +kernel)
  have hp' : Planned carefulHost ⟨⟨"."⟩, none, none, false⟩ olderModule clearedPlan :=
    planned_iff.mpr (by decide +kernel)
  have hbuild : clearedProject.Heads .followed clearedPlan.buildDir ["p", "build"] :=
    heads_of_resolve (by decide +kernel)
  have hagree : Agree ["p", "build"] clearedProject olderModule :=
    clearedProject_plain.agree_put (p := ⟨"build/lib/demo/_a.abi3.so"⟩) (by decide +kernel)
      (by decide) ⟨["lib", "demo", "_a.abi3.so"], rfl⟩ _
  have hdist : clearedProject.Heads .followed (clearedPlan.distDir carefulHost none)
      ["p", "dist"] := heads_of_resolve (by decide +kernel)
  have hok : (sampleRequest.run carefulHost clearedProject).exit = 0 := by decide +kernel
  have hok' : (sampleRequest.run carefulHost olderModule).exit = 0 := by decide +kernel
  have hbuilt : (clearedPlan.builtOn carefulHost ⟨⟨"."⟩, none, none, false⟩ clearedProject).lookup
      ["p", "build", "lib", "demo", "_a.abi3.so"] ≠
        clearedProject.lookup ["p", "build", "lib", "demo", "_a.abi3.so"] := by
    decide +kernel
  obtain ⟨members, members', hmembers, hmembers', hiff⟩ :=
    wheels_alike_iff carefulHost_quiet hp hp' hbuild hagree clearedPlan_outside
      (carefulHost_hermetic _ _ _ _) (fun room hroom => by rw [hroom.unique hdist]; decide) hok hok'
  obtain rfl : members = members' := by
    refine hiff.mpr fun names hkept _ => ?_
    by_cases hmodule : ["p", "build"] ++ ["lib"] ++ names =
        ["p", "build", "lib", "demo", "_a.abi3.so"]
    · rw [hmodule] at hkept
      exact absurd hkept hbuilt
    · exact bytesAt_congr (lookup_put_of_ne _ _ _ _ hmodule).symm
  exact ⟨members, hmembers, hmembers'⟩

end StableWheel
