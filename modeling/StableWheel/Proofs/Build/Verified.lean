import StableWheel.Build.Pass
import StableWheel.Proofs.Build.Described

/-! Which module is blamed before any compiler runs.

Two searches lie in each other: the modules are gone through for the first that is not ready, and
its sources for the first that is not there, unless the module itself makes no sense (`Fault`). So
what is reported is settled by that module alone (`verifySources_eq_error_iff`), whatever is wrong
with those after it; a module that was described makes sense, so that only its sources can be
missing. -/
namespace StableWheel

namespace ExtensionSpec

/-- Nothing is wrong with a module: it makes sense, and all of its sources are files. -/
structure Ready (fs : FileSystem) (root : Path) (spec : ExtensionSpec) : Prop where
  valid : spec.validate = .ok ()
  there : ∀ source ∈ spec.sources, fs.isFile (root.join source) = true

theorem ready_iff {fs : FileSystem} {root : Path} {spec : ExtensionSpec} :
    spec.Ready fs root ↔
      spec.validate = .ok () ∧ ∀ source ∈ spec.sources, fs.isFile (root.join source) = true :=
  ⟨fun h => ⟨h.valid, h.there⟩, fun h => ⟨h.1, h.2⟩⟩

/-- What is wrong with a module: that it makes no sense, or else its first source that is not
there. -/
inductive Fault (fs : FileSystem) (root : Path) (spec : ExtensionSpec) : SourceError → Prop where
  | invalid {e : SpecError} (refused : spec.validate = .error e) : Fault fs root spec (.badSpec e)
  | missing {source : Path} (valid : spec.validate = .ok ())
      (first : FirstNot (fun s => fs.isFile (root.join s) = true) spec.sources source) :
      Fault fs root spec (.missing spec.fullName (root.join source))

end ExtensionSpec

section
open ExtensionSpec (Ready Fault describeAll)

variable {fs : FileSystem} {root : Path} {spec : ExtensionSpec} {specs : List ExtensionSpec}

theorem verifySpec_isOk_iff : (∃ u, verifySpec fs root spec = .ok u) ↔ spec.Ready fs root := by
  rw [ExtensionSpec.ready_iff, ← verifySpec_iff]
  exact ⟨fun ⟨_, hok⟩ => hok, fun hok => ⟨(), hok⟩⟩

theorem missingSource_eq_some_iff {p : Path} :
    missingSource fs root spec = some p ↔ ∃ source,
      FirstNot (fun s => fs.isFile (root.join s) = true) spec.sources source ∧
        root.join source = p := by
  rw [missingSource, List.find?_map, Option.map_eq_some_iff]
  simp only [find?_eq_some_iff_firstNot, Function.comp_apply, Bool.not_eq_false']

theorem verifySpec_eq_error_iff {e : SourceError} :
    verifySpec fs root spec = .error e ↔ spec.Fault fs root e := by
  unfold verifySpec
  cases hvalid : spec.validate with
  | error e' =>
    dsimp only
    constructor
    · rintro ⟨⟩
      exact .invalid hvalid
    · intro h
      cases h with
      | invalid refused => rw [Except.error.inj (hvalid.symm.trans refused)]
      | missing valid => cases hvalid.symm.trans valid
  | ok u =>
    dsimp only
    constructor
    · intro h
      split at h
      · next p hmissing =>
        cases h
        obtain ⟨source, hfirst, rfl⟩ := missingSource_eq_some_iff.mp hmissing
        exact .missing hvalid hfirst
      · cases h
    · intro h
      cases h with
      | invalid refused => cases hvalid.symm.trans refused
      | missing valid first =>
        rw [missingSource_eq_some_iff.mpr ⟨_, first, rfl⟩]

/-- Looking for all sources is looking at one module after the other. -/
theorem verifySources_eq (fs : FileSystem) (root : Path) (specs : List ExtensionSpec) :
    verifySources fs root specs = (specs.mapM (verifySpec fs root)).map fun _ => () := by
  induction specs with
  | nil => rfl
  | cons spec rest ih =>
    rw [verifySources, ih, List.mapM_cons]
    cases verifySpec fs root spec with
    | error e => rfl
    | ok u => cases rest.mapM (verifySpec fs root) <;> rfl

theorem verifySources_eq_error_iff {e : SourceError} :
    verifySources fs root specs = .error e ↔
      ∃ spec, FirstNot (Ready fs root) specs spec ∧ spec.Fault fs root e := by
  have hstops : verifySources fs root specs = .error e ↔
      specs.mapM (verifySpec fs root) = .error e := by
    rw [verifySources_eq]
    cases specs.mapM (verifySpec fs root) <;> simp [Except.map]
  rw [hstops, mapM_eq_error_iff]
  simp only [verifySpec_isOk_iff, verifySpec_eq_error_iff]

/-- Modules that were described make sense. -/
theorem validate_of_describeAll {platform : Platform} {package : Option String}
    {modules : List DeclaredModule} (h : describeAll platform package modules = .ok specs)
    (hspec : spec ∈ specs) : spec.validate = .ok () := by
  obtain ⟨hcomplete, rfl⟩ := ExtensionSpec.describeAll_eq_ok_iff.mp h
  obtain ⟨m, hm, rfl⟩ := List.mem_map.mp hspec
  exact ExtensionSpec.validate_ofDeclared (hcomplete m hm).parser

/-- The check leaves the pass and the session to what comes after it as they are. -/
theorem BuildPass.buildExtensions_checked (t : Toolchain) {b : BuildPass} (s : Session)
    (h : b.compiled = false) :
    b.buildExtensions t s =
      match verifySources s.files b.context.root b.extensions with
      | .error e => (.error (.sources e), b, s)
      | .ok _ =>
        compileEach t b.extensions { b with steps := b.steps ++ [BuildStep.extensions] } s := by
  rw [buildExtensions, h]
  rfl

end

open ExtensionSpec (Ready Fault describeAll) in
/-- **Which module is blamed, and for what.** Nothing is found wrong exactly if every module makes
sense and each of its sources, taken from the root, is a file. Otherwise the first module with which
anything is wrong is blamed: if it makes no sense, for that, and else, by its full name, for its
first source that is not a file. It does not matter what is wrong with those after it. Modules that
were described are blamed for missing sources only. Looking for sources changes nothing: a pass that
is refused is left as it was, with everything around it, and one that is not starts to compile in
the session as it was. -/
theorem verifySources_blames (fs : FileSystem) (root : Path) (specs : List ExtensionSpec) :
    (verifySources fs root specs = .ok () ↔ ∀ spec ∈ specs, spec.Ready fs root) ∧
      (∀ e, verifySources fs root specs = .error e ↔
        ∃ spec, FirstNot (Ready fs root) specs spec ∧ spec.Fault fs root e) ∧
      (∀ platform package modules, describeAll platform package modules = .ok specs →
        ∀ e, verifySources fs root specs = .error e →
          ∃ spec ∈ specs, ∃ path, e = .missing spec.fullName path) ∧
      ∀ (t : Toolchain) (b : BuildPass) (s : Session), s.files = fs → b.context.root = root →
        b.extensions = specs → b.compiled = false →
          b.buildExtensions t s =
            match verifySources fs root specs with
            | .error e => (.error (.sources e), b, s)
            | .ok _ =>
              BuildPass.compileEach t specs { b with steps := b.steps ++ [BuildStep.extensions] }
                s := by
  refine ⟨?_, fun e => verifySources_eq_error_iff,
    fun platform package modules hdescribed e he => ?_,
    fun t b s hfs hroot hspecs hcompiled => ?_⟩
  · simp only [verifySources_iff, ExtensionSpec.ready_iff]
  · obtain ⟨spec, hfirst, hfault⟩ := verifySources_eq_error_iff.mp he
    cases hfault with
    | invalid refused => cases (validate_of_describeAll hdescribed hfirst.mem).symm.trans refused
    | missing => exact ⟨spec, hfirst.mem, _, rfl⟩
  · subst hfs hroot hspecs
    exact BuildPass.buildExtensions_checked t s hcompiled

end StableWheel
