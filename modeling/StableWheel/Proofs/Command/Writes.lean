import StableWheel.Proofs.Command.Endings
import StableWheel.Proofs.Package.Copying
import StableWheel.Proofs.Wheel.Remains

/-! What commands write.

A command writes the modules that it compiles, the files that it copies for packages, and a wheel.
Each of these is where a path heads that was put together from the settings (`CompiledAt`,
`WrittenAt`), and whatever comes of the command, nothing else changes (`run_changes`). -/
namespace StableWheel
open FileSystem

/-! ### Compiling -/

/-- A compiler that is told to make a module leaves a tree with the links that there were, and
nothing changes but the file of the module and what is in the directory for temporary files. -/
def Host.CompilesOnly (h : Host) (context : CompileContext) (spec : ExtensionSpec) : Prop :=
  ∀ c place fs, (∃ fs, Compiler.resolve h fs h.target = some c) → Steady fs
    (fun x => fs.Heads .followed (spec.artifactPath context.buildLib context.platform) x ∨
      ∃ temp, fs.Heads .followed context.buildTemp temp ∧ temp <+: x)
    fs (h.behave place (Toolchain.moduleArguments h spec context c) fs).2

/-- Where compilers write: the files of modules, and the directory for temporary files. -/
def CompiledAt (base : FileSystem) (context : CompileContext) (specs : List ExtensionSpec)
    (place : Location) : Prop :=
  ∃ spec ∈ specs,
    (∃ ending, base.Heads ending (spec.artifactPath context.buildLib context.platform) place) ∨
    ∃ temp, base.Heads .followed context.buildTemp temp ∧ temp <+: place

section
variable {h : Host} {verbose : Bool} {base : FileSystem}

theorem compile_steady {context : CompileContext} {specs : List ExtensionSpec}
    (hcompilers : ∀ spec ∈ specs, h.CompilesOnly context spec) :
    ∀ spec ∈ specs, ∀ n s, Steady base (CompiledAt base context specs) s.files
      ((Toolchain.ofHost h h.target verbose).compile n spec context s).2.files := by
  intro spec hspec n s
  refine Toolchain.ofHost_moves steady_composes createDirectories_steady
    (fun c place fs hc => ?_) n s
  intro hlinks htree
  obtain ⟨hafter, htree, hchanges⟩ := hcompilers spec hspec c place fs hc (.refl fs) htree
  refine ⟨hlinks.trans hafter, htree, fun x hchanged => ⟨spec, hspec, ?_⟩⟩
  rcases hchanges x hchanged with hmodule | ⟨temp, htemp, hbelow⟩
  · exact .inl ⟨.followed, hlinks.symm.heads hmodule⟩
  · exact .inr ⟨temp, hlinks.symm.heads htemp, hbelow⟩

namespace BuildPass

variable {b : BuildPass}
  (hcompilers : ∀ spec ∈ b.extensions, h.CompilesOnly b.context spec)
include hcompilers

theorem buildExtensions_steady {s s' : Session} {b' : BuildPass} {u : Unit}
    (ho : buildExtensions (.ofHost h h.target verbose) b s = (.ok u, b', s')) :
    Steady base (CompiledAt base b.context b.extensions) s.files s'.files :=
  buildExtensions_moves steady_composes (compile_steady hcompilers) ho

/-- When modules cannot be compiled, files of modules are removed as well. -/
theorem buildExtensions_changes (hnone : b.artifacts = []) {s : Session}
    (hlinks : SameLinks base s.files) (htree : s.files.IsTree) {place : Location}
    (hchanged :
      Changed s.files (buildExtensions (.ofHost h h.target verbose) b s).2.2.files place) :
    CompiledAt base b.context b.extensions place := by
  rcases buildExtensions_cases (.ofHost h h.target verbose) b s with ⟨-, ho⟩ |
      ⟨-, ⟨e, -, ho⟩ | ⟨-, ⟨artifacts, hd⟩ | ⟨earlier, failing, artifacts, hs⟩⟩⟩
  · rw [ho] at hchanged
    exact absurd rfl hchanged.1
  · rw [ho] at hchanged
    exact absurd rfl hchanged.1
  · exact (buildExtensions_steady hcompilers hd.outcome hlinks htree).2.2 place
      (by rwa [hd.outcome] at hchanged)
  · obtain ⟨rest, hsplit⟩ := hs.split
    obtain ⟨started, hcontext, hfresh, hs⟩ : ∃ started : BuildPass, started.context = b.context ∧
        started.artifacts = [] ∧ Stops (.ofHost h h.target verbose) b.extensions started s
          (buildExtensions (.ofHost h h.target verbose) b s) earlier failing artifacts :=
      ⟨{ b with steps := b.steps ++ [.extensions] }, rfl, hnone, hs⟩
    have hpaths := askEach_paths earlier started s hs.answers
    rw [hs.outcome, discard_files, hfresh, List.nil_append] at hchanged
    -- up to the module that failed nothing was removed
    have hall : ∀ spec ∈ b.extensions, ∀ n s, Steady base (CompiledAt base b.context b.extensions)
        s.files ((Toolchain.ofHost h h.target verbose).compile n spec b.context s).2.files :=
      compile_steady hcompilers
    rw [← hcontext, hsplit] at hall
    have hasked : Steady base (CompiledAt base b.context b.extensions) s.files
        (askAfter (.ofHost h h.target verbose) earlier started failing s).2.files := by
      rw [← hcontext, hsplit]
      have hearlier := askEach_moves steady_composes earlier started
        (fun spec hspec => hall spec (List.mem_append_left _ hspec)) s
      exact steady_composes.trans hearlier (ask_moves (hall failing (by simp)) _)
    obtain ⟨hlinks, -, hchanges⟩ := hasked hlinks htree
    rcases hchanged.of_trans with hbefore | hremoved
    · exact hchanges place hbefore
    rcases lookup_removeEach artifacts _ place with hsame | ⟨-, p, hp, n, hfound, -⟩
    · exact absurd hsame hremoved.1
    · rw [hpaths, hcontext] at hp
      obtain ⟨spec, hspec, rfl⟩ := List.mem_map.mp hp
      refine ⟨spec, ?_, .inl ⟨.kept, hlinks.symm.heads (heads_of_resolve (find_iff.mp hfound).1)⟩⟩
      rw [hsplit]
      exact List.mem_append_left _ hspec

end BuildPass

end

/-! ### Building -/

/-- The copies that the pass of a plan makes of its packages. -/
def Plan.Copying (h : Host) (options : BuildOptions) (p : Plan) (ready : Session)
    (copies : List (String × PackageLayout.Copy)) : Prop :=
  PackageLayout.Copying p.config.package.layout p.root (p.context h.platform).buildLib
    (p.compiled h options ready) copies (p.built h options ready)

section
variable {h : Host} {options : BuildOptions} {fs : FileSystem} {p : Plan} {ready : Session}
  (hcompilers : ∀ spec ∈ p.specs, h.CompilesOnly (p.context h.platform) spec)
  (hlinks : SameLinks fs ready.files) (htree : ready.files.IsTree)
include hcompilers hlinks htree

theorem compiled_changes {place : Location}
    (hchanged : Changed ready.files (p.compiled h options ready) place) :
    CompiledAt fs (p.context h.platform) p.specs place := by
  unfold Plan.compiled BuildPass.compiling at hchanged
  split at hchanged
  · exact BuildPass.buildExtensions_changes hcompilers rfl hlinks htree hchanged
  · exact absurd rfl hchanged.1

/-- Modules that are all compiled leave links and the tree as they are. -/
theorem compiled_steady
    (hbuilt : p.Compiles h options ready) :
    SameLinks fs (p.compiled h options ready) ∧ (p.compiled h options ready).IsTree := by
  unfold Plan.compiled BuildPass.compiling
  split
  · next hsome =>
    have hok := hbuilt hsome
    rcases ho : BuildPass.buildExtensions (.ofHost h h.target options.verbose)
      (p.pass h.platform options.verbose) ready with ⟨_ | u, b', left⟩
    · rw [ho] at hok
      cases hok
    · obtain ⟨hlinks, htree, -⟩ := BuildPass.buildExtensions_steady hcompilers ho hlinks htree
      exact ⟨hlinks, htree⟩
  · exact ⟨hlinks, htree⟩

/-- All that a pass changes are files of modules and targets of copies. -/
theorem built_changes : ∃ copies, p.Copying h options ready copies ∧
    (∀ package c, (package, c) ∈ copies → package ∈ p.config.package.layout.packages ∧
      c.target = PackageLayout.targetOf (p.root.join (p.config.package.layout.sourceDir package))
        (PackageLayout.destination (p.context h.platform).buildLib package) c.source ∧
      fs.Heads .followed c.target c.place) ∧
    (∀ place, Changed ready.files (p.built h options ready) place →
      CompiledAt fs (p.context h.platform) p.specs place ∨
        ∃ package c, (package, c) ∈ copies ∧ c.place = place) ∧
    (p.Builds h options ready →
      SameLinks fs (p.built h options ready) ∧ (p.built h options ready).IsTree) := by
  rcases p.built_ends h options ready with ⟨hstop, hsame⟩ | ⟨hcompiles, between, hbetween, hleft⟩
  · unfold Plan.Copying
    rw [hsame]
    refine ⟨[], .nil, fun _ _ hc => (by cases hc), fun place hchanged => ?_, fun hbuilds => ?_⟩
    · exact .inl (compiled_changes hcompilers hlinks htree hchanged)
    · exact absurd hbuilds hstop
  · obtain ⟨hlinks', htree'⟩ := compiled_steady hcompilers hlinks htree hcompiles
    obtain ⟨copies, hcopying⟩ := PackageLayout.stage_copied p.config.package.layout p.root
      (p.context h.platform).buildLib between
    rw [hbetween, ← hleft] at hcopying
    have hstaged := hcopying.steady hlinks' htree'
    refine ⟨copies, hcopying, fun package c hc => ?_, fun place hchanged => ?_, fun _ => ?_⟩
    · exact hcopying.heads hlinks' htree' hc
    · rcases hchanged.of_trans (b := p.compiled h options ready) with hcompiled | hcopied
      · exact .inl (compiled_changes hcompilers hlinks htree hcompiled)
      · obtain ⟨⟨package, c⟩, hc, hplace⟩ := hstaged.2.2 place hcopied
        exact .inr ⟨package, c, hc, hplace⟩
    · exact ⟨hstaged.1, hstaged.2.1⟩

end

/-! ### Packing -/

theorem Spares.not_changed {path : Path} {replaced : Location → Prop} {before after : FileSystem}
    (h : Spares path replaced before after) {place : Location} (hplace : ¬ replaced place) :
    ¬ Changed before after place := by
  rintro ⟨hne, hmade⟩
  rcases hb : before.lookup place with _ | n
  · rcases ha : after.lookup place with _ | n
    · exact hne (ha.trans hb.symm)
    · obtain ⟨rfl, -⟩ := h.made place n hplace hb ha
      exact hmade ⟨hb, ha⟩
  · exact hne ((h.kept place n hplace hb).trans hb.symm)

/-- Packing changes the file of the wheel, if anything. -/
theorem pack_changes {base : FileSystem} (w : Wheel) (staging dist : Path) (s : Session)
    (hlinks : SameLinks base s.files) {place : Location}
    (hchanged : Changed s.files ((w.pack staging dist).run s).2.files place) :
    base.Heads .kept (dist.join ⟨w.fileName⟩) place := by
  have hpacks := w.pack_packs staging dist s
  rcases hr : ((w.pack staging dist).run s).1 with e | wheel
  · rw [hr] at hpacks
    exact absurd hchanged (hpacks.spares_of_error.not_changed id)
  · rw [hr] at hpacks
    obtain ⟨found, f, hfound, -, -, hspares⟩ := hpacks.spares_of_ok
    rw [hpacks.path] at hfound
    have hplace : place = found :=
      Classical.byContradiction fun hne => hspares.not_changed hne hchanged
    rw [hplace]
    exact (hlinks.trans (createDirectories_makes s.files dist).grows.sameLinks).symm.heads
      (heads_of_resolve hfound)

/-! ### Whole commands -/

/-- What a command that has a plan writes: modules and what compilers need on the way, the files of
packages, and a wheel. -/
inductive WrittenAt (h : Host) (r : Request) (fs : FileSystem) (p : Plan)
    (copies : List (String × PackageLayout.Copy)) : Location → Prop where
  | compiled {place} : CompiledAt fs (p.context h.platform) p.specs place →
      WrittenAt h r fs p copies place
  | copied {package c} : (package, c) ∈ copies → WrittenAt h r fs p copies c.place
  | packed {w dist place} : r.command.wheel? h p = some (w, dist) →
      fs.Heads .kept (dist.join ⟨w.fileName⟩) place → WrittenAt h r fs p copies place

section
variable {h : Host} {r : Request} {options : BuildOptions} {fs : FileSystem} {p : Plan}
  {ready : Session}

/-- Whatever comes of a command, it changes nothing but what it writes. -/
theorem run_changes (hr : r.command.building? = some options)
    (hp : (plan h options).run (h.session fs) = (.ok p, ready)) (hfiles : ready.files = fs)
    (ht : fs.IsTree) (hcompilers : ∀ spec ∈ p.specs, h.CompilesOnly (p.context h.platform) spec) :
    ∃ copies, p.Copying h options ready copies ∧
      (∀ package c, (package, c) ∈ copies → package ∈ p.config.package.layout.packages ∧
        c.target = PackageLayout.targetOf
          (p.root.join (p.config.package.layout.sourceDir package))
          (PackageLayout.destination (p.context h.platform).buildLib package) c.source ∧
        fs.Heads .followed c.target c.place) ∧
      ∀ place, Changed fs (r.run h fs).session.files place → WrittenAt h r fs p copies place := by
  have hlinks : SameLinks fs ready.files := by
    rw [hfiles]
    exact .refl fs
  obtain ⟨copies, hcopying, hheads, hchanges, hsteady⟩ :=
    @built_changes h options fs p ready hcompilers hlinks (hfiles ▸ ht)
  rw [hfiles] at hchanges
  have hbuilt : ∀ place, Changed fs (p.built h options ready) place →
      WrittenAt h r fs p copies place := by
    intro place hchanged
    rcases hchanges place hchanged with hcompiled | ⟨package, c, hc, rfl⟩
    · exact .compiled hcompiled
    · exact .copied hc
  refine ⟨copies, hcopying, hheads, fun place hchanged => ?_⟩
  rcases run_planned hr hp with hleft | ⟨hbuilds, w, dist, packing, hw, hpacking, hleft⟩
  · rw [hleft] at hchanged
    exact hbuilt place hchanged
  · rw [hleft] at hchanged
    rcases hchanged.of_trans (b := p.built h options ready) with hbefore | hpacked
    · exact hbuilt place hbefore
    · rw [← hpacking] at hpacked
      exact .packed hw (pack_changes w _ dist packing (hpacking ▸ (hsteady hbuilds).1) hpacked)

end

end StableWheel
