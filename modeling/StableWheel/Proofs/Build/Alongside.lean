import StableWheel.Proofs.Build.Requests
import StableWheel.Proofs.FileSystem.Abreast

/-! Compiling the same modules in two file systems.

Compilers that take nothing from the build directory do the same in two file systems that agree
outside of it (`Host.Hermetic`), so modules that are compiled in both keep these abreast
(`askEach_abreast`). -/
namespace StableWheel
open FileSystem

/-- Compilers do not look at what is at a place or below it: as long as nobody touches a link, which
one is used does not hang on that, and one that ends well in two file systems that agree on all else
does the same to both. -/
structure Host.Hermetic (h : Host) (fs : FileSystem) (top : Location) (context : CompileContext)
    (specs : List ExtensionSpec) : Prop where
  found : ∀ a b, SameLinks fs a → Agree top a b →
    Compiler.resolve h a h.target = Compiler.resolve h b h.target
  compiled : ∀ a b, SameLinks fs a → Agree top a b → ∀ spec ∈ specs, ∀ c,
    (∃ fs, Compiler.resolve h fs h.target = some c) → ∀ place place',
    h.startable a c.invocation.1 (Toolchain.moduleArguments h spec context c) = .ok place →
    h.startable b c.invocation.1 (Toolchain.moduleArguments h spec context c) = .ok place' →
    (h.behave place (Toolchain.moduleArguments h spec context c) a).1.succeeded = true →
    (h.behave place' (Toolchain.moduleArguments h spec context c) b).1.succeeded = true →
    Abreast top a b (h.behave place (Toolchain.moduleArguments h spec context c) a).2
      (h.behave place' (Toolchain.moduleArguments h spec context c) b).2

variable {h : Host} {top : Location} {start start' : FileSystem}

theorem makeDirectories_abreast (directories : List Path) {s s' done done' : Session}
    (habreast : Abreast top start start' s.files s'.files)
    (hs : (Toolchain.makeDirectories directories).run s = (.ok (), done))
    (hs' : (Toolchain.makeDirectories directories).run s' = (.ok (), done')) :
    Abreast top start start' done.files done'.files := by
  induction directories generalizing s s' with
  | nil =>
    cases hs
    cases hs'
    exact habreast
  | cons directory rest ih =>
    obtain ⟨_, made, hmade, hs⟩ := Task.run_bind_ok hs
    obtain ⟨_, made', hmade', hs'⟩ := Task.run_bind_ok hs'
    obtain ⟨hok, rfl⟩ := Task.run_onFiles_ok hmade
    obtain ⟨hok', rfl⟩ := Task.run_onFiles_ok hmade'
    exact ih (habreast.createDirectories (Prod.ext hok rfl) (Prod.ext hok' rfl)) hs hs'

variable {context : CompileContext} {specs : List ExtensionSpec} {verbose : Bool}
  (hhermetic : h.Hermetic start top context specs)
include hhermetic

/-- A module that is compiled in both keeps them abreast. -/
theorem compile_abreast {spec : ExtensionSpec} (hspec : spec ∈ specs) (n : Nat) {s s' : Session}
    (habreast : Abreast top start start' s.files s'.files) {artifact artifact' : Path}
    (hd : ((Toolchain.ofHost h h.target verbose).compile n spec context s).1.delivered =
      some artifact)
    (hd' : ((Toolchain.ofHost h h.target verbose).compile n spec context s').1.delivered =
      some artifact') :
    Abreast top start start'
      ((Toolchain.ofHost h h.target verbose).compile n spec context s).2.files
      ((Toolchain.ofHost h h.target verbose).compile n spec context s').2.files := by
  obtain ⟨c, ready, place, hc, hready, hplace, hdone, hleft⟩ := Toolchain.ofHost_compiled n hd
  obtain ⟨c', ready', place', hc', hready', hplace', hdone', hleft'⟩ :=
    Toolchain.ofHost_compiled n hd'
  obtain rfl : c' = c := by
    rw [hhermetic.found _ _ habreast.links habreast.agree, hc'] at hc
    exact Option.some.inj hc
  have hprepared := makeDirectories_abreast _ habreast hready hready'
  rw [hleft, hleft']
  exact hprepared.trans (hhermetic.compiled _ _ hprepared.links hprepared.agree spec hspec c'
    ⟨_, hc'⟩ _ _ hplace hplace' hdone hdone')

namespace BuildPass

/-- Modules that are all compiled in both keep them abreast. -/
theorem askEach_abreast (more : List ExtensionSpec) (hmore : ∀ spec ∈ more, spec ∈ specs)
    (b : BuildPass) (hb : b.context = context) {s s' : Session}
    (habreast : Abreast top start start' s.files s'.files) {artifacts artifacts' : List Path}
    (hd : (askEach (.ofHost h h.target verbose) more b s).1.map CompileResult.delivered =
      artifacts.map some)
    (hd' : (askEach (.ofHost h h.target verbose) more b s').1.map CompileResult.delivered =
      artifacts'.map some) :
    Abreast top start start' (askEach (.ofHost h h.target verbose) more b s).2.files
      (askEach (.ofHost h h.target verbose) more b s').2.files := by
  induction more generalizing b s s' artifacts artifacts' with
  | nil => exact habreast
  | cons spec rest ih =>
    rw [askEach_cons] at hd hd' ⊢
    rcases artifacts with _ | ⟨artifact, artifacts⟩
    · cases hd
    rcases artifacts' with _ | ⟨artifact', artifacts'⟩
    · cases hd'
    obtain ⟨hfirst, hrest⟩ := List.cons.inj hd
    obtain ⟨hfirst', hrest'⟩ := List.cons.inj hd'
    subst hb
    have hannounced : Abreast top start start'
        (b.announce ("running build_ext for " ++ spec.fullName) s).files
        (b.announce ("running build_ext for " ++ spec.fullName) s').files := by
      rwa [announce_files, announce_files]
    have hcompiled := compile_abreast hhermetic (hmore spec (List.mem_cons_self ..))
      b.requests.length hannounced hfirst hfirst'
    exact ih (fun spec hspec => hmore spec (List.mem_cons_of_mem _ hspec))
      { b with requests := b.requests ++ [spec] } rfl hcompiled hrest hrest'

/-- So do fresh passes that begin by compiling them. -/
theorem buildExtensions_abreast {b done done' : BuildPass} (hfresh : b.compiled = false)
    (hb : b.context = context) (hspecs : ∀ spec ∈ b.extensions, spec ∈ specs)
    {s s' left left' : Session} (habreast : Abreast top start start' s.files s'.files) {u u' : Unit}
    (ho : buildExtensions (.ofHost h h.target verbose) b s = (.ok u, done, left))
    (ho' : buildExtensions (.ofHost h h.target verbose) b s' = (.ok u', done', left')) :
    Abreast top start start' left.files left'.files := by
  obtain ⟨artifacts, hd⟩ := buildExtensions_delivers hfresh ho
  obtain ⟨artifacts', hd'⟩ := buildExtensions_delivers hfresh ho'
  have hasked := askEach_abreast hhermetic b.extensions hspecs
    { b with steps := b.steps ++ [.extensions] } hb habreast hd.answers hd'.answers
  cases hd.outcome
  cases hd'.outcome
  exact hasked

end BuildPass
end StableWheel
