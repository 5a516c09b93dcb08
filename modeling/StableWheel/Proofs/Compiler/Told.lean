import StableWheel.Compiler.Arguments
import StableWheel.Proofs.Build.Described

/-! What compilers are told of a module.

A module is told to every compiler in the same things and in the same order (`Told`); compilers differ
in what options start with, and in the options that say what is made of it. So whatever the style is,
the command line of a declared module can be taken apart into what was told, what is to be made, and
what is left to the linker (`compileArguments_told`). -/
namespace StableWheel

/-- One thing that a compiler is told about a module. -/
inductive Told where
  /-- A name is defined, with a value or without. -/
  | define (name : String) (value : Option String)
  | headers (directory : Path)
  | flag (text : String)
  | source (file : Path)
  deriving DecidableEq

namespace Told

/-- What it starts with in some style. -/
def lead (style : CompilerStyle) : Told → String
  | define _ _ => if style = .msvc then "/D" else "-D"
  | headers _ => if style = .msvc then "/I" else "-I"
  | flag _ | source _ => ""

/-- What comes behind that, which is the same in all styles. -/
def body : Told → String
  | define name none => name
  | define name (some value) => name ++ "=" ++ value
  | headers directory => directory.text
  | flag text => text
  | source file => file.text

/-- How it is written in some style. -/
def spelled (style : CompilerStyle) (t : Told) : String := t.lead style ++ t.body

/-- The name that it defines, if it defines one. -/
def defined? : Told → Option String
  | define name _ => some name
  | _ => none

/-- What compilers are told by a specification. -/
def ofSpec (spec : ExtensionSpec) (context : CompileContext) : List Told :=
  spec.macros.map (fun m => define m.1 m.2) ++ (includeDirs spec context).map headers
    ++ spec.compileFlags.map flag ++ spec.sources.map fun s => source (context.root.join s)

/-- What compilers are told of a declared module: the names that are defined, where headers are, the
dialect, and the sources. Relative places are relative to the project. -/
def ofDeclared (m : DeclaredModule) (platform : Platform) (context : CompileContext) : List Told :=
  [define "PY_SSIZE_T_CLEAN" none, define "Py_LIMITED_API" (some "0x03080000")]
    ++ headers (context.root.join ⟨"src"⟩) :: context.include?.toList.map headers
    ++ (if platform = .windows then [] else [flag "-std=c99"])
    ++ (m.parserSource :: m.bindingSource :: m.extraSources.filter fun p => !p.isEmpty).map
        fun p => source (context.root.join p)

end Told

namespace CompilerStyle

/-- What kind of file is made. -/
def making : CompilerStyle → List String
  | gnu => ["-shared", "-o"]
  | apple => ["-bundle", "-undefined", "dynamic_lookup", "-o"]
  | msvc => ["/LD"]

/-- Which file is made. -/
def made (output : Path) : CompilerStyle → String
  | gnu | apple => output.text
  | msvc => "/Fe" ++ output.text

/-- What else is said before the flags of the linker. -/
def closing (context : CompileContext) : CompilerStyle → List String
  | gnu | apple => []
  | msvc =>
    ("/Fo" ++ context.buildTemp.text ++ "\\") :: "/link" ::
      context.libs?.toList.map fun l => "/LIBPATH:" ++ l.text

end CompilerStyle

/-! ### Taking the command line apart -/

variable {spec : ExtensionSpec} {context : CompileContext} {style : CompilerStyle}

theorem definePrefix_eq : style.definePrefix = if style = .msvc then "/D" else "-D" := by
  cases style <;> rfl

theorem includePrefix_eq : style.includePrefix = if style = .msvc then "/I" else "-I" := by
  cases style <;> rfl

theorem defineArgument_eq (m : String × Option String) :
    defineArgument style m = (Told.define m.1 m.2).spelled style := by
  obtain ⟨name, value⟩ := m
  cases value <;>
    simp [defineArgument, Told.spelled, Told.lead, Told.body, definePrefix_eq, String.append_assoc]

/-- Only the spelling depends on the style. -/
theorem commonArguments_eq :
    commonArguments spec context style = (Told.ofSpec spec context).map (Told.spelled style) := by
  simp [commonArguments, Told.ofSpec, funext defineArgument_eq, includePrefix_eq, Function.comp_def,
    Told.spelled, Told.lead, Told.body]

theorem outputArguments_eq (output : Path) : outputArguments context output style =
    style.making ++ style.made output :: style.closing context := by
  cases style <;> rfl

/-- The flags of the linker come last, behind what is made of what was told. -/
theorem compileArguments_eq (output : Path) (flags : List String) :
    compileArguments spec context output style flags =
      (Told.ofSpec spec context).map (Told.spelled style)
        ++ (style.making ++ style.made output :: style.closing context) ++ flags := by
  rw [compileArguments, commonArguments_eq, outputArguments_eq]

/-- The names that compilers are told to define are just those that a specification defines. -/
theorem Told.mem_defined_iff {name : String} :
    name ∈ (Told.ofSpec spec context).filterMap Told.defined? ↔ spec.defines name = true := by
  have hmacros : (spec.macros.map fun m => Told.define m.1 m.2).filterMap Told.defined? =
      spec.macros.map Prod.fst := by
    rw [List.filterMap_map]
    exact congrFun List.filterMap_eq_map spec.macros
  have hrest : ((includeDirs spec context).map Told.headers ++ spec.compileFlags.map Told.flag
      ++ spec.sources.map fun s => Told.source (context.root.join s)).filterMap Told.defined? =
        [] := by
    rw [List.filterMap_eq_nil_iff]
    simp only [List.mem_append, List.mem_map]
    rintro t ((⟨_, _, rfl⟩ | ⟨_, _, rfl⟩) | ⟨_, _, rfl⟩) <;> rfl
  rw [Told.ofSpec, List.append_assoc, List.append_assoc, List.filterMap_append, hmacros,
    ← List.append_assoc, hrest, List.append_nil, ExtensionSpec.defines, Option.isSome_iff_ne_none,
    ne_eq, List.lookup_eq_none_iff]
  simp

namespace Told
variable {platform : Platform} {package : Option String} {m : DeclaredModule}

/-- A described module is told by what it declares. -/
theorem ofSpec_of_describe (h : ExtensionSpec.describe platform package m = .ok spec) :
    ofSpec spec context = ofDeclared m platform context := by
  have hm := ExtensionSpec.describe_isOk_iff.mp ⟨spec, h⟩
  obtain ⟨rfl, -⟩ := ExtensionSpec.describe_ok h
  have hdefines : (ExtensionSpec.stableMacros Version.stableMinimum).map
      (fun m => define m.1 m.2) =
        [define "PY_SSIZE_T_CLEAN" none, define "Py_LIMITED_API" (some "0x03080000")] := by
    decide
  have hflags : platform.dialectFlags.map flag =
      if platform = .windows then [] else [flag "-std=c99"] := by
    cases platform <;> rfl
  rw [ofSpec, ofDeclared, ExtensionSpec.sources_ofDeclared hm.parser hm.binding]
  change List.map _ (ExtensionSpec.stableMacros Version.stableMinimum) ++ List.map headers
    (context.root.join ⟨"src"⟩ :: context.include?.toList) ++ platform.dialectFlags.map flag ++ _ = _
  rw [hdefines, hflags, List.map_cons]

/-- The names that are defined rise, so each of them is defined once. -/
theorem defined_ofDeclared :
    ((ofDeclared m platform context).filterMap defined?).Pairwise (· < ·) := by
  have hrest : ∀ t ∈ (ofDeclared m platform context).drop 2, t.defined? = none := by
    intro t ht
    simp only [ofDeclared, List.cons_append, List.nil_append, List.drop_succ_cons, List.drop_zero,
      List.mem_append, List.mem_cons, List.mem_map] at ht
    rcases ht with rfl | (⟨_, _, rfl⟩ | hflag) | ⟨_, _, rfl⟩
    · rfl
    · rfl
    · split at hflag
      · cases hflag
      · rw [List.mem_singleton.mp hflag]
        rfl
    · rfl
  have hnames : (ofDeclared m platform context).filterMap defined? =
      ["PY_SSIZE_T_CLEAN", "Py_LIMITED_API"] := by
    rw [← List.take_append_drop 2 (ofDeclared m platform context), List.filterMap_append,
      List.filterMap_eq_nil_iff.mpr hrest]
    rfl
  rw [hnames]
  decide

/-- The dialect is asked for once, or not at all. -/
theorem count_dialect : (ofDeclared m platform context).count (flag "-std=c99") =
    if platform = .windows then 0 else 1 := by
  have hdefines : [define "PY_SSIZE_T_CLEAN" none,
      define "Py_LIMITED_API" (some "0x03080000")].count (flag "-std=c99") = 0 := by decide
  have hheaders (ds : List Path) : (ds.map headers).count (flag "-std=c99") = 0 := by
    simp [List.count_eq_zero]
  have hsources (ps : List Path) :
      (ps.map fun p => source (context.root.join p)).count (flag "-std=c99") = 0 := by
    simp [List.count_eq_zero]
  rw [ofDeclared, ← List.map_cons, List.count_append, List.count_append, List.count_append, hdefines,
    hheaders, hsources]
  cases platform <;> rfl

/-- The same thing in two styles. -/
def Respelled (style style' : CompilerStyle) (a a' : String) : Prop :=
  ∃ t : Told, a = t.spelled style ∧ a' = t.spelled style'

theorem respelled (ts : List Told) (style style' : CompilerStyle) :
    List.Forall₂ (Respelled style style') (ts.map (spelled style)) (ts.map (spelled style')) := by
  rw [List.forall₂_map_left_iff, List.forall₂_map_right_iff, List.forall₂_same]
  exact fun t _ => ⟨t, rfl, rfl⟩

end Told

open Told in
/-- **What the command line of a declared module consists of.** First comes what the compiler is told:
the two names that are defined, in order and each once, then where headers are, the dialect unless the
platform is Windows, and the sources in the order in which they are declared. Then it says which file
is made, and at the end stand the flags of the linker. A compiler that takes slashes is told where the
linker's part starts: behind all options and sources, before the library and the flags. What comes
first is the same for all styles, but for what options start with. -/
theorem compileArguments_told {platform : Platform} {package : Option String} {m : DeclaredModule}
    (h : ExtensionSpec.describe platform package m = .ok spec) (context : CompileContext)
    (output : Path) (flags : List String) :
    let told := ofDeclared m platform context
    (∀ style, compileArguments spec context output style flags =
      told.map (spelled style) ++ (style.making ++ style.made output :: style.closing context)
        ++ flags) ∧
    (told.filterMap defined?).Pairwise (· < ·) ∧
    told.count (flag "-std=c99") = (if platform = .windows then 0 else 1) ∧
    compileArguments spec context output .msvc flags =
      (told.map (spelled .msvc) ++
        ["/LD", "/Fe" ++ output.text, "/Fo" ++ context.buildTemp.text ++ "\\"])
        ++ "/link" :: (context.libs?.toList.map (fun l => "/LIBPATH:" ++ l.text) ++ flags) ∧
    ∀ style style', List.Forall₂ (Respelled style style')
      ((compileArguments spec context output style flags).take told.length)
      ((compileArguments spec context output style' flags).take told.length) := by
  intro told
  have hall : ∀ style, compileArguments spec context output style flags =
      told.map (spelled style) ++ (style.making ++ style.made output :: style.closing context)
        ++ flags := by
    intro style
    rw [compileArguments_eq, ofSpec_of_describe h]
  have htaken : ∀ style, (compileArguments spec context output style flags).take told.length =
      told.map (spelled style) := by
    intro style
    rw [hall, List.append_assoc, List.take_left' (List.length_map ..)]
  refine ⟨hall, defined_ofDeclared, count_dialect, ?_, fun style style' => ?_⟩
  · rw [hall]
    simp [CompilerStyle.making, CompilerStyle.made, CompilerStyle.closing]
  · rw [htaken, htaken]
    exact respelled told style style'

/-- A module with a scanner, and with a further source that has no name. -/
def scannerModule : DeclaredModule :=
  ⟨" _binding ", ⟨"src/parser.c"⟩, ⟨"/shims/binding.c"⟩, [⟨""⟩, ⟨"src/scanner.c"⟩]⟩

/-- A project with an interpreter that says where its headers are, and its library. -/
def scannerContext : CompileContext :=
  ⟨⟨"/proj"⟩, ⟨"/proj/build/lib"⟩, ⟨"/proj/build/temp"⟩, .other, some ⟨"/py/include"⟩,
    some ⟨"/py/libs"⟩⟩

/-- The three styles. A compiler that takes slashes is told the dialect as well if the platform is
not Windows. -/
theorem scanner_told :
    ∃ spec, ExtensionSpec.describe .other (some "demo") scannerModule = .ok spec ∧
      compileArguments spec scannerContext ⟨"/out/_binding.pyd"⟩ .msvc ["/DEBUG"] =
        ["/DPY_SSIZE_T_CLEAN", "/DPy_LIMITED_API=0x03080000", "/I/proj/src", "/I/py/include",
          "-std=c99", "/proj/src/parser.c", "/shims/binding.c", "/proj/src/scanner.c", "/LD",
          "/Fe/out/_binding.pyd", "/Fo/proj/build/temp\\", "/link",
          "/LIBPATH:/py/libs", "/DEBUG"] ∧
      compileArguments spec scannerContext ⟨"/out/_binding.so"⟩ .gnu ["-lm"] =
        ["-DPY_SSIZE_T_CLEAN", "-DPy_LIMITED_API=0x03080000", "-I/proj/src", "-I/py/include",
          "-std=c99", "/proj/src/parser.c", "/shims/binding.c", "/proj/src/scanner.c", "-shared",
          "-o", "/out/_binding.so", "-lm"] ∧
      compileArguments spec scannerContext ⟨"/out/_binding.so"⟩ .apple [] =
        ["-DPY_SSIZE_T_CLEAN", "-DPy_LIMITED_API=0x03080000", "-I/proj/src", "-I/py/include",
          "-std=c99", "/proj/src/parser.c", "/shims/binding.c", "/proj/src/scanner.c", "-bundle",
          "-undefined", "dynamic_lookup", "-o", "/out/_binding.so"] := by
  have hdescribed : ExtensionSpec.describe .other (some "demo") scannerModule =
      .ok (ExtensionSpec.ofDeclared .other (some "demo") scannerModule) := by
    rfl
  have hall := compileArguments_told hdescribed scannerContext
  refine ⟨_, hdescribed, ?_, ?_, ?_⟩
  · rw [(hall ⟨"/out/_binding.pyd"⟩ ["/DEBUG"]).1]
    decide
  · rw [(hall ⟨"/out/_binding.so"⟩ ["-lm"]).1]
    decide
  · rw [(hall ⟨"/out/_binding.so"⟩ []).1]
    decide

end StableWheel
