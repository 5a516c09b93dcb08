import Mathlib.Data.List.Forall2
import StableWheel.Proofs.Build.Sources
import StableWheel.Proofs.Interpreter.VersionText
import StableWheel.Proofs.Text.Trimming
import StableWheel.Proofs.Wheel.Stabilised

/-! Which modules are described, and as what.

Describing goes through the modules in order and stops at the first that lacks something
(`describeAll_eq_error_iff`). What a module lacks is told by its declaration alone (`Lacks`): once
the name and the two sources are there, the specification passes every check, so that no other error
comes up. `describeAll_describes` says what all modules are described as. -/
namespace StableWheel

/-! ### The first that is amiss -/

/-- The first of a list that is not good: all before it are. -/
structure FirstNot {α : Type} (good : α → Prop) (xs : List α) (x : α) : Prop where
  amiss : ¬good x
  place : ∃ before after, xs = before ++ x :: after ∧ ∀ y ∈ before, good y

section
variable {α : Type} {good : α → Prop} {xs : List α} {x : α}

theorem FirstNot.mem (h : FirstNot good xs x) : x ∈ xs := by
  obtain ⟨before, after, rfl, -⟩ := h.place
  exact List.mem_append_right before List.mem_cons_self

/-- A list is cut at its first element or behind it. -/
theorem exists_cut_cons_iff {p : List α → Prop} {first : α} :
    (∃ before after, first :: xs = before ++ x :: after ∧ p before) ↔
      x = first ∧ p [] ∨ ∃ before after, xs = before ++ x :: after ∧ p (first :: before) := by
  constructor
  · rintro ⟨before, after, hcut, hp⟩
    cases before with
    | nil =>
      cases hcut
      exact .inl ⟨rfl, hp⟩
    | cons _ more =>
      cases hcut
      exact .inr ⟨more, after, rfl, hp⟩
  · rintro (⟨rfl, hp⟩ | ⟨before, after, rfl, hp⟩)
    · exact ⟨[], xs, rfl, hp⟩
    · exact ⟨first :: before, after, rfl, hp⟩

theorem firstNot_nil : ¬FirstNot good [] x :=
  fun h => absurd h.mem List.not_mem_nil

theorem firstNot_cons_iff {first : α} :
    FirstNot good (first :: xs) x ↔ ¬good first ∧ x = first ∨ good first ∧ FirstNot good xs x := by
  constructor
  · rintro ⟨hx, hplace⟩
    rcases exists_cut_cons_iff.mp hplace with ⟨rfl, -⟩ | ⟨before, after, hcut, hbefore⟩
    · exact .inl ⟨hx, rfl⟩
    · obtain ⟨hfirst, hmore⟩ := List.forall_mem_cons.mp hbefore
      exact .inr ⟨hfirst, hx, before, after, hcut, hmore⟩
  · rintro (⟨hfirst, rfl⟩ | ⟨hfirst, hx, before, after, hcut, hbefore⟩)
    · exact ⟨hfirst, exists_cut_cons_iff.mpr (.inl ⟨rfl, nofun⟩)⟩
    · exact ⟨hx, exists_cut_cons_iff.mpr
        (.inr ⟨before, after, hcut, List.forall_mem_cons.mpr ⟨hfirst, hbefore⟩⟩)⟩

theorem find?_eq_some_iff_firstNot {p : α → Bool} :
    xs.find? p = some x ↔ FirstNot (fun y => p y = false) xs x := by
  rw [List.find?_eq_some_iff_append]
  simp only [Bool.not_eq_true']
  constructor
  · rintro ⟨hx, before, after, hplace, hbefore⟩
    exact ⟨by simp [hx], before, after, hplace, hbefore⟩
  · rintro ⟨hx, before, after, hplace, hbefore⟩
    exact ⟨by simpa using hx, before, after, hplace, hbefore⟩

theorem mapM_cons_eq_error_iff {ε β : Type} {f : α → Except ε β} {first : α} {e : ε} :
    (first :: xs).mapM f = .error e ↔
      f first = .error e ∨ (∃ b, f first = .ok b) ∧ xs.mapM f = .error e := by
  rw [List.mapM_cons]
  cases f first with
  | error e' => simp [bind, Except.bind]
  | ok b => cases xs.mapM f <;> simp [bind, Except.bind, pure, Except.pure]

/-- What goes through a list ends with the error of the first that has one. -/
theorem mapM_eq_error_iff {ε β : Type} {f : α → Except ε β} {e : ε} :
    xs.mapM f = .error e ↔ ∃ x, FirstNot (fun y => ∃ b, f y = .ok b) xs x ∧ f x = .error e := by
  induction xs with
  | nil => simp [firstNot_nil, pure, Except.pure]
  | cons first rest ih =>
    rw [mapM_cons_eq_error_iff, ih]
    constructor
    · rintro (hfirst | ⟨hfirst, x, hx, he⟩)
      · refine ⟨first, firstNot_cons_iff.mpr (.inl ⟨?_, rfl⟩), hfirst⟩
        simp [hfirst]
      · exact ⟨x, firstNot_cons_iff.mpr (.inr ⟨hfirst, hx⟩), he⟩
    · rintro ⟨x, hx, he⟩
      rcases firstNot_cons_iff.mp hx with ⟨-, rfl⟩ | ⟨hfirst, hx⟩
      · exact .inl he
      · exact .inr ⟨hfirst, x, hx, he⟩

end

/-! ### Declarations -/

namespace DeclaredModule

/-- A declaration that has a name and the two sources that every module has to have. -/
structure Complete (m : DeclaredModule) : Prop where
  name : Text.allBlank m.name = false
  parser : m.parserSource.isEmpty = false
  binding : m.bindingSource.isEmpty = false

/-- What a declaration lacks: the name comes before the sources, and the parser's before the
binding's. -/
inductive Lacks (m : DeclaredModule) : SpecError → Prop where
  | name (nameless : Text.allBlank m.name = true) : m.Lacks .missingName
  | parser (named : Text.allBlank m.name = false) (missing : m.parserSource.isEmpty = true) :
      m.Lacks (.missingSource (Text.trim m.name) .parser)
  | binding (named : Text.allBlank m.name = false) (parser : m.parserSource.isEmpty = false)
      (missing : m.bindingSource.isEmpty = true) :
      m.Lacks (.missingSource (Text.trim m.name) .binding)

theorem Lacks.not_complete {m : DeclaredModule} {e : SpecError} (h : m.Lacks e) : ¬m.Complete := by
  rintro ⟨hname, hparser, hbinding⟩
  cases h with
  | name nameless => simp [hname] at nameless
  | parser _ missing => simp [hparser] at missing
  | binding _ _ missing => simp [hbinding] at missing

/-- It is one thing only, since each is looked at after those before it. -/
theorem Lacks.unique {m : DeclaredModule} {e e' : SpecError} (h : m.Lacks e) (h' : m.Lacks e') :
    e = e' := by
  cases h <;> cases h' <;> simp_all

end DeclaredModule

namespace ExtensionSpec
open DeclaredModule (Complete Lacks)

variable {platform : Platform} {package : Option String}

theorem macros_ofDeclared (m : DeclaredModule) :
    (ofDeclared platform package m).macros.lookup "Py_LIMITED_API" = some (some "0x03080000") := by
  have hvalue : Version.stableMinimum.hex = "0x03080000" := by decide
  simp [ofDeclared, stableMacros, limitedApi, sizeTClean, List.lookup_cons, hvalue]

theorem sources_ofDeclared {m : DeclaredModule} (hparser : m.parserSource.isEmpty = false)
    (hbinding : m.bindingSource.isEmpty = false) :
    (ofDeclared platform package m).sources =
      m.parserSource :: m.bindingSource :: m.extraSources.filter fun p => !p.isEmpty := by
  simp [ofDeclared, hparser, hbinding]

/-- With a parser there is something to compile, and the interface is always limited. -/
theorem validate_ofDeclared {m : DeclaredModule} (hparser : m.parserSource.isEmpty = false) :
    (ofDeclared platform package m).validate = .ok () := by
  have hsources : (ofDeclared platform package m).sources.isEmpty = false := by
    simp [ofDeclared, hparser]
  rw [validate, hsources, macroValue, limitedApi, macros_ofDeclared]
  simp

theorem describe_cases (platform : Platform) (package : Option String) (m : DeclaredModule) :
    (m.Complete ∧ describe platform package m = .ok (ofDeclared platform package m)) ∨
      ∃ e, m.Lacks e ∧ describe platform package m = .error e := by
  unfold describe
  dsimp only
  rw [Text.isEmpty_trim]
  cases hname : Text.allBlank m.name with
  | true => exact .inr ⟨_, .name hname, rfl⟩
  | false =>
    cases hparser : m.parserSource.isEmpty with
    | true => exact .inr ⟨_, .parser hname hparser, rfl⟩
    | false =>
      cases hbinding : m.bindingSource.isEmpty with
      | true => exact .inr ⟨_, .binding hname hparser hbinding, rfl⟩
      | false =>
        refine .inl ⟨⟨hname, hparser, hbinding⟩, ?_⟩
        simp only [validate_ofDeclared hparser]
        rfl

theorem describe_isOk_iff {m : DeclaredModule} :
    (∃ spec, describe platform package m = .ok spec) ↔ m.Complete := by
  rcases describe_cases platform package m with ⟨hm, hspec⟩ | ⟨e, he, herror⟩
  · exact iff_of_true ⟨_, hspec⟩ hm
  · refine iff_of_false ?_ he.not_complete
    rw [herror]
    exact nofun

theorem describe_eq_error_iff {m : DeclaredModule} {e : SpecError} :
    describe platform package m = .error e ↔ m.Lacks e := by
  rcases describe_cases platform package m with ⟨hm, hspec⟩ | ⟨e', he', herror⟩
  · rw [hspec]
    exact iff_of_false nofun fun he => he.not_complete hm
  · rw [herror, Except.error.injEq]
    exact ⟨fun h => h ▸ he', fun he => he'.unique he⟩

/-! ### All of them -/

theorem describeAll_eq_ok_iff {modules : List DeclaredModule} {specs : List ExtensionSpec} :
    describeAll platform package modules = .ok specs ↔
      (∀ m ∈ modules, m.Complete) ∧ specs = modules.map (ofDeclared platform package) := by
  rcases describeAll_cases platform package modules with ⟨m, hm, e, hbad, herror⟩ | ⟨hgood, hall⟩
  · rw [herror]
    exact iff_of_false nofun fun h => (describe_eq_error_iff.mp hbad).not_complete (h.1 m hm)
  · rw [hall, Except.ok.injEq, eq_comm, iff_and_self]
    exact fun _ m hm => describe_isOk_iff.mp ⟨_, hgood m hm⟩

theorem describeAll_eq_error_iff {modules : List DeclaredModule} {e : SpecError} :
    describeAll platform package modules = .error e ↔
      ∃ m, FirstNot Complete modules m ∧ m.Lacks e := by
  rw [describeAll, mapM_eq_error_iff]
  simp only [describe_isOk_iff, describe_eq_error_iff]

/-- What a specification takes from the declaration that it was made for, and what every
specification has: it passes every check, and it limits the interface. -/
structure Describes (m : DeclaredModule) (spec : ExtensionSpec) : Prop where
  name : spec.moduleName = Text.trim m.name
  sources : spec.sources =
    m.parserSource :: m.bindingSource :: m.extraSources.filter fun p => !p.isEmpty
  valid : spec.validate = .ok ()
  limited : spec.macros.lookup "Py_LIMITED_API" = some (some "0x03080000")

theorem describes_ofDeclared {m : DeclaredModule} (h : m.Complete) :
    Describes m (ofDeclared platform package m) :=
  ⟨rfl, sources_ofDeclared h.parser h.binding, validate_ofDeclared h.parser,
    macros_ofDeclared m⟩

theorem describes_of_describeAll {modules : List DeclaredModule} {specs : List ExtensionSpec}
    (h : describeAll platform package modules = .ok specs) :
    List.Forall₂ Describes modules specs := by
  obtain ⟨hcomplete, rfl⟩ := describeAll_eq_ok_iff.mp h
  rw [List.forall₂_map_right_iff, List.forall₂_same]
  exact fun m hm => describes_ofDeclared (hcomplete m hm)

end ExtensionSpec

/-- The wheel tag claims the oldest version that the modules are limited to. -/
theorem Tag.interpreter_ofWheel {r : Report} {platform : Option String}
    (h : (ofReport r platform).Reference) : (ofWheel (some r) platform).interpreter = "cp38" := by
  change (stabilised _ _).interpreter = _
  rw [stabilised_of_reference (reference_iff.mp h), stable]

theorem Version.hexadecimal_stableMinimum : stableMinimum.Hexadecimal "0x03080000" :=
  hexadecimal_hex stableMinimum

open ExtensionSpec (describeAll Describes) in
/-- **What modules are described as, and which one is refused.** All modules of a list can be
described exactly if each has a name that is not blank, a source for its parser and one for its
binding. Then there is one specification for each, in order, with the name without blanks around it,
and with the parser, the binding and the further sources that have a name, in this order; it passes
every check, and it limits the interface to 3.8 by its number in hexadecimal digits, the version
whose digits are in the tag of the wheel. Otherwise the first module that lacks something is named,
or said to be nameless; no other error comes up. -/
theorem describeAll_describes (platform : Platform) (package : Option String)
    (modules : List DeclaredModule) :
    ((∃ specs, describeAll platform package modules = .ok specs) ↔ ∀ m ∈ modules, m.Complete) ∧
      (∀ specs, describeAll platform package modules = .ok specs →
        List.Forall₂ Describes modules specs) ∧
      (∃ oldest : Version, oldest.Hexadecimal "0x03080000" ∧ "cp" ++ oldest.tagDigits = "cp38" ∧
        ∀ r tagged, (Tag.ofReport r tagged).Reference →
          (Tag.ofWheel (some r) tagged).interpreter = "cp38") ∧
      (∀ e, describeAll platform package modules = .error e ↔
        ∃ m, FirstNot DeclaredModule.Complete modules m ∧ m.Lacks e) ∧
      ∀ name, describeAll platform package modules ≠ .error (.noSources name) ∧
        describeAll platform package modules ≠ .error (.missingLimitedApi name) := by
  refine ⟨?_, fun specs => ExtensionSpec.describes_of_describeAll,
    ⟨Version.stableMinimum, Version.hexadecimal_stableMinimum, by decide +kernel,
      fun r tagged => Tag.interpreter_ofWheel⟩,
    fun e => ExtensionSpec.describeAll_eq_error_iff,
    fun name => ⟨fun h => ?_, fun h => ?_⟩⟩
  · simp [ExtensionSpec.describeAll_eq_ok_iff]
  all_goals
    obtain ⟨m, -, hlacks⟩ := ExtensionSpec.describeAll_eq_error_iff.mp h
    cases hlacks

end StableWheel
