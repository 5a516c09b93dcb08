import StableWheel.Build.Sources

/-! Modules that are described, and sources that are there.

Describing stops at the first module that cannot be described, and looking for sources at the first
one that is missing. Which one that is depends on the order of the modules; whether there is one
does not (`describeAll_cases`, `verifySources_iff`). -/
namespace StableWheel

namespace ExtensionSpec
variable {platform : Platform} {package : Option String}

/-- A module that is described is described by its declaration, and this passes every check. -/
theorem describe_ok {m : DeclaredModule} {spec : ExtensionSpec}
    (h : describe platform package m = .ok spec) :
    spec = ofDeclared platform package m ∧ spec.validate = .ok () := by
  unfold describe at h
  dsimp only at h
  split at h
  · cases h
  split at h
  · cases h
  split at h
  · cases h
  rcases hv : (ofDeclared platform package m).validate with e | u
  · rw [hv] at h
    cases h
  · rw [hv] at h
    cases h
    exact ⟨rfl, hv⟩

theorem describeAll_cons (m : DeclaredModule) (rest : List DeclaredModule) :
    describeAll platform package (m :: rest) =
      describe platform package m >>= fun spec =>
        describeAll platform package rest >>= fun specs => pure (spec :: specs) :=
  List.mapM_cons

/-- There is a module that cannot be described, or all of them are, each by its declaration. -/
theorem describeAll_cases (platform : Platform) (package : Option String)
    (modules : List DeclaredModule) :
    (∃ m ∈ modules, ∃ e, describe platform package m = .error e ∧
        describeAll platform package modules = .error e) ∨
      (∀ m ∈ modules, describe platform package m = .ok (ofDeclared platform package m)) ∧
        describeAll platform package modules =
          .ok (modules.map (ofDeclared platform package)) := by
  induction modules with
  | nil => exact .inr ⟨by simp, rfl⟩
  | cons m rest ih =>
    rcases hm : describe platform package m with e | spec
    · refine .inl ⟨m, List.mem_cons_self .., e, hm, ?_⟩
      rw [describeAll_cons, hm]
      rfl
    · obtain ⟨rfl, -⟩ := describe_ok hm
      rcases ih with ⟨bad, hbad, e, he, hstop⟩ | ⟨hall, hrest⟩
      · refine .inl ⟨bad, List.mem_cons_of_mem m hbad, e, he, ?_⟩
        rw [describeAll_cons, hm, hstop]
        rfl
      · refine .inr ⟨fun m' hm' => ?_, ?_⟩
        · rcases List.mem_cons.mp hm' with rfl | hm'
          · exact hm
          · exact hall m' hm'
        · rw [describeAll_cons, hm, hrest]
          rfl

/-- A module that is described has the sources that it declares, but for those without a name. -/
theorem mem_sources_ofDeclared {m : DeclaredModule} {source : Path} :
    source ∈ (ofDeclared platform package m).sources ↔
      source ∈ m.parserSource :: m.bindingSource :: m.extraSources ∧ source.isEmpty = false := by
  simp [ofDeclared]

end ExtensionSpec

/-- Nothing is wrong with a module exactly if it makes sense and all of its sources are files. -/
theorem verifySpec_iff {fs : FileSystem} {root : Path} {spec : ExtensionSpec} :
    verifySpec fs root spec = .ok () ↔
      spec.validate = .ok () ∧ ∀ source ∈ spec.sources, fs.isFile (root.join source) = true := by
  have hmissing : missingSource fs root spec = none ↔
      ∀ source ∈ spec.sources, fs.isFile (root.join source) = true := by
    simp [missingSource]
  rw [← hmissing, verifySpec]
  rcases spec.validate with e | u
  · simp
  · rcases missingSource fs root spec with _ | p <;> simp

/-- Nothing is wrong exactly if nothing is wrong with any module. -/
theorem verifySources_iff {fs : FileSystem} {root : Path} {specs : List ExtensionSpec} :
    verifySources fs root specs = .ok () ↔
      ∀ spec ∈ specs, spec.validate = .ok () ∧
        ∀ source ∈ spec.sources, fs.isFile (root.join source) = true := by
  induction specs with
  | nil => simp [verifySources]
  | cons spec rest ih =>
    rw [List.forall_mem_cons, ← verifySpec_iff, ← ih, verifySources]
    rcases verifySpec fs root spec with e | u <;> simp

end StableWheel
