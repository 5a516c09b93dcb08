import Mathlib.Data.List.Nodup
import StableWheel.Project.Config
import StableWheel.Proofs.Build.Described

/-! Modules that can be told apart by their names.

A description is refused for the first thing that is wrong with it (`validate_eq_error_iff`): the
name, the version, or a module that goes by the name of an earlier one. Names are compared without
the blanks around them, and modules are described by their names without blanks, so the files that
described modules are compiled to have different names (`validate_tells_apart`). A module without a
name is passed over here; it is describing that refuses it. -/
namespace StableWheel

namespace DeclaredModule

/-- Two modules go by one name: it is the same without the blanks around it, and is not blank. -/
structure SharesName (m m' : DeclaredModule) : Prop where
  named : Text.allBlank m.name = false
  same : Text.trim m.name = Text.trim m'.name

section
variable {m m' : DeclaredModule}

theorem SharesName.named_right (h : m.SharesName m') : Text.allBlank m'.name = false := by
  rw [← Text.isEmpty_trim, ← h.same, Text.isEmpty_trim, h.named]

theorem not_sharesName_of_blank (h : Text.allBlank m.name = true) : ¬m.SharesName m' := by
  intro hshared
  rw [hshared.named] at h
  cases h

theorem sharesName_iff_of_named (h : Text.allBlank m.name = false) :
    m.SharesName m' ↔ Text.trim m'.name = Text.trim m.name :=
  ⟨fun hshared => hshared.same.symm, fun hsame => ⟨h, hsame.symm⟩⟩

end

end DeclaredModule

namespace ProjectConfig
open DeclaredModule (not_sharesName_of_blank sharesName_iff_of_named)

/-- No two modules go by one name. -/
def Distinct (modules : List DeclaredModule) : Prop :=
  modules.Pairwise fun m m' => ¬m.SharesName m'

/-! ### Names that occur again -/

section
variable {seen : List String} {first m : DeclaredModule} {before modules : List DeclaredModule}

/-- What the search for a repeated name does with the first module. -/
theorem firstRepeated_cons (seen : List String) (first : DeclaredModule)
    (rest : List DeclaredModule) :
    firstRepeated seen (first :: rest) =
      if Text.allBlank first.name = true then firstRepeated seen rest
      else if Text.trim first.name ∈ seen then some first
      else firstRepeated (Text.trim first.name :: seen) rest := by
  rw [firstRepeated]
  simp only [Text.isEmpty_trim, List.contains_iff_mem]

/-- Nothing is repeated if all names differ, and differ from those that were seen before. -/
theorem firstRepeated_eq_none_iff :
    firstRepeated seen modules = none ↔ Distinct modules ∧
      ∀ m ∈ modules, Text.allBlank m.name = false → Text.trim m.name ∉ seen := by
  -- a name that is gone past is seen from then on, so this has to hold for any names seen before
  induction modules generalizing seen with
  | nil => simp [firstRepeated, Distinct]
  | cons first rest ih =>
    rw [firstRepeated_cons, Distinct, List.pairwise_cons, List.forall_mem_cons]
    cases hfirst : Text.allBlank first.name with
    | true => simp [ih, Distinct, not_sharesName_of_blank hfirst]
    | false =>
      by_cases hseen : Text.trim first.name ∈ seen
      · simp [hseen]
      · simp only [Bool.false_eq_true, if_false, hseen, ih, List.mem_cons, not_or]
        constructor
        · rintro ⟨hrest, hnew⟩
          refine ⟨⟨fun m hm hshared => ?_, hrest⟩, fun _ => not_false,
            fun m hm hnamed => (hnew m hm hnamed).2⟩
          exact (hnew m hm hshared.named_right).1 hshared.same.symm
        · rintro ⟨⟨hother, hrest⟩, -, hunseen⟩
          refine ⟨hrest, fun m hm hnamed => ⟨fun hsame => ?_, hunseen m hm hnamed⟩⟩
          exact hother m hm ((sharesName_iff_of_named hfirst).mpr hsame)

/-- The name of a module was seen before, or is that of a module before. -/
structure Known (seen : List String) (before : List DeclaredModule) (m : DeclaredModule) :
    Prop where
  named : Text.allBlank m.name = false
  taken : Text.trim m.name ∈ seen ∨ ∃ m' ∈ before, m'.SharesName m

theorem known_nil_iff :
    Known seen [] m ↔ Text.allBlank m.name = false ∧ Text.trim m.name ∈ seen := by
  constructor
  · rintro ⟨hnamed, hseen | ⟨m', hm', -⟩⟩
    · exact ⟨hnamed, hseen⟩
    · cases hm'
  · rintro ⟨hnamed, hseen⟩
    exact ⟨hnamed, .inl hseen⟩

theorem known_cons_of_blank (h : Text.allBlank first.name = true) :
    Known seen (first :: before) m ↔ Known seen before m := by
  have htaken : (∃ m' ∈ first :: before, m'.SharesName m) ↔ ∃ m' ∈ before, m'.SharesName m := by
    rw [List.exists_mem_cons_iff, or_iff_right (not_sharesName_of_blank h)]
  exact ⟨fun hk => ⟨hk.named, hk.taken.imp_right htaken.mp⟩,
    fun hk => ⟨hk.named, hk.taken.imp_right htaken.mpr⟩⟩

theorem known_cons_of_named (h : Text.allBlank first.name = false) :
    Known seen (first :: before) m ↔ Known (Text.trim first.name :: seen) before m := by
  have htaken : (Text.trim m.name ∈ seen ∨ ∃ m' ∈ first :: before, m'.SharesName m) ↔
      Text.trim m.name ∈ Text.trim first.name :: seen ∨ ∃ m' ∈ before, m'.SharesName m := by
    rw [List.exists_mem_cons_iff, sharesName_iff_of_named h, List.mem_cons, or_left_comm, or_assoc]
  exact ⟨fun hk => ⟨hk.named, htaken.mp hk.taken⟩, fun hk => ⟨hk.named, htaken.mpr hk.taken⟩⟩

/-- The module that is found has a name that is known, and before it nothing is repeated. -/
theorem firstRepeated_eq_some_iff :
    firstRepeated seen modules = some m ↔ ∃ before after, modules = before ++ m :: after ∧
      firstRepeated seen before = none ∧ Known seen before m := by
  induction modules generalizing seen with
  | nil => simp [firstRepeated]
  | cons first rest ih =>
    rw [exists_cut_cons_iff, known_nil_iff, firstRepeated_cons]
    simp only [firstRepeated_cons seen first]
    cases hfirst : Text.allBlank first.name with
    | true =>
      simp only [if_true, ih, known_cons_of_blank hfirst]
      rw [or_iff_right]
      rintro ⟨rfl, -, hnamed, -⟩
      rw [hfirst] at hnamed
      cases hnamed
    | false =>
      simp only [Bool.false_eq_true, if_false]
      by_cases hseen : Text.trim first.name ∈ seen
      · simp only [if_pos hseen, Option.some.injEq, reduceCtorEq, false_and, and_false,
          exists_false, or_false]
        constructor
        · rintro rfl
          exact ⟨rfl, rfl, hfirst, hseen⟩
        · rintro ⟨rfl, -⟩
          rfl
      · simp only [if_neg hseen, ih, known_cons_of_named hfirst]
        rw [or_iff_right]
        rintro ⟨rfl, -, -, htaken⟩
        exact hseen htaken

theorem firstRepeated_nil_eq_none_iff : firstRepeated [] modules = none ↔ Distinct modules := by
  rw [firstRepeated_eq_none_iff, and_iff_left]
  exact fun _ _ _ => List.not_mem_nil

theorem firstRepeated_nil_eq_some_iff :
    firstRepeated [] modules = some m ↔ ∃ before after, modules = before ++ m :: after ∧
      Distinct before ∧ ∃ earlier ∈ before, earlier.SharesName m := by
  have hknown : ∀ before, Known [] before m ↔ ∃ earlier ∈ before, earlier.SharesName m := by
    intro before
    constructor
    · rintro ⟨-, hseen | hshared⟩
      · cases hseen
      · exact hshared
    · rintro ⟨earlier, hearlier, hshared⟩
      exact ⟨hshared.named_right, .inr ⟨earlier, hearlier, hshared⟩⟩
  simp only [firstRepeated_eq_some_iff, firstRepeated_nil_eq_none_iff, hknown]

end

/-! ### What is wrong with a description -/

/-- What is wrong with a description: the name, or else the version, or else the first module that
goes by the name of an earlier one. -/
inductive Flaw (c : ProjectConfig) : Defect → Prop where
  | name (nameless : Text.allBlank c.package.name = true) : c.Flaw .emptyName
  | version (named : Text.allBlank c.package.name = false)
      (missing : Text.allBlank c.package.version = true) : c.Flaw (.noVersion c.package.name)
  | module (named : Text.allBlank c.package.name = false)
      (versioned : Text.allBlank c.package.version = false) {before after : List DeclaredModule}
      {earlier m : DeclaredModule} (place : c.extensions = before ++ m :: after)
      (distinct : Distinct before) (occurred : earlier ∈ before) (shared : earlier.SharesName m) :
      c.Flaw (.repeatedExtension m.name)

theorem validate_eq_ok_iff {c : ProjectConfig} :
    c.validate = .ok () ↔ Text.allBlank c.package.name = false ∧
      Text.allBlank c.package.version = false ∧ Distinct c.extensions := by
  rw [validate, ← firstRepeated_nil_eq_none_iff]
  cases Text.allBlank c.package.name with
  | true => simp
  | false =>
    cases Text.allBlank c.package.version with
    | true => simp
    | false => cases firstRepeated [] c.extensions <;> simp

theorem validate_eq_error_iff {c : ProjectConfig} {d : Defect} :
    c.validate = .error d ↔ c.Flaw d := by
  constructor
  · intro h
    unfold validate at h
    split at h
    · next hname =>
      cases h
      exact .name hname
    · next hname =>
      have hnamed := Bool.eq_false_iff.mpr hname
      split at h
      · next hversion =>
        cases h
        exact .version hnamed hversion
      · next hversion =>
        split at h
        · next m hrepeated =>
          cases h
          obtain ⟨before, after, hplace, hdistinct, earlier, hearlier, hshared⟩ :=
            firstRepeated_nil_eq_some_iff.mp hrepeated
          exact .module hnamed (Bool.eq_false_iff.mpr hversion) hplace hdistinct hearlier hshared
        · cases h
  · intro h
    cases h with
    | name nameless => simp [validate, nameless]
    | version named missing => simp [validate, named, missing]
    | module named versioned place distinct occurred shared =>
      have hrepeated :=
        firstRepeated_nil_eq_some_iff.mpr ⟨_, _, place, distinct, _, occurred, shared⟩
      simp [validate, named, versioned, hrepeated]

/-! ### Names of what is compiled -/

/-- Where all modules have a name, no two of them going by one name means that the names without
blanks are different. -/
theorem nodup_names {modules : List DeclaredModule} (hdistinct : Distinct modules)
    (hcomplete : ∀ m ∈ modules, m.Complete) :
    (modules.map fun m => Text.trim m.name).Nodup := by
  rw [List.Nodup, List.pairwise_map]
  refine hdistinct.imp_of_mem fun hm _ hother hsame => hother ⟨(hcomplete _ hm).name, hsame⟩

theorem nodup_artifactNames {platform : Platform} {package : Option String}
    {modules : List DeclaredModule} (h : (modules.map fun m => Text.trim m.name).Nodup)
    (target : Platform) :
    ((modules.map (ExtensionSpec.ofDeclared platform package)).map
      (·.artifactName target)).Nodup := by
  -- all described modules have the suffix of the stable interface
  have hsuffix : (modules.map (ExtensionSpec.ofDeclared platform package)).map
      (·.artifactName target) =
        (modules.map fun m => Text.trim m.name).map (· ++ target.stableSuffix) := by
    simp [ExtensionSpec.artifactName, ExtensionSpec.ofDeclared, Function.comp_def]
  rw [hsuffix]
  exact List.Nodup.map (fun a b hab => (String.append_left_inj _).mp hab) h

end ProjectConfig

/-- **Modules can be told apart by their names.** Nothing is wrong with a description exactly if its
name and its version are not blank and no two of its modules go by one name. Otherwise the name is
blamed first, then the version, and then the first module that goes by the name of an earlier one.
Where nothing is wrong and all modules can be described, no two of them are described by the same
name, and on neither platform are two of them compiled to files of the same name. -/
theorem validate_tells_apart (c : ProjectConfig) :
    (c.validate = .ok () ↔ Text.allBlank c.package.name = false ∧
        Text.allBlank c.package.version = false ∧ ProjectConfig.Distinct c.extensions) ∧
      (∀ d, c.validate = .error d ↔ c.Flaw d) ∧
      (c.validate = .ok () → ∀ platform package specs,
        ExtensionSpec.describeAll platform package c.extensions = .ok specs →
          (specs.map (·.moduleName)).Nodup ∧
            ∀ target, (specs.map (·.artifactName target)).Nodup) := by
  refine ⟨ProjectConfig.validate_eq_ok_iff, fun d => ProjectConfig.validate_eq_error_iff,
    fun hvalid platform package specs hdescribed => ?_⟩
  obtain ⟨-, -, hdistinct⟩ := ProjectConfig.validate_eq_ok_iff.mp hvalid
  obtain ⟨hcomplete, rfl⟩ := ExtensionSpec.describeAll_eq_ok_iff.mp hdescribed
  have hnames := ProjectConfig.nodup_names hdistinct hcomplete
  refine ⟨?_, ProjectConfig.nodup_artifactNames hnames⟩
  rw [List.map_map]
  exact hnames

/-- Modules without a name are passed over, and blanks around a name make no difference. -/
example :
    (ProjectConfig.firstRepeated [] (["", " ", "_a", " _a\t", "_a"].map fun name =>
      ⟨name, ⟨"parser.c"⟩, ⟨"binding.c"⟩, []⟩)).map (·.name) = some " _a\t" := by
  decide +kernel

end StableWheel
