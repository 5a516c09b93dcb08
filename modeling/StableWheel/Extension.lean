import StableWheel.Interpreter.Version
import StableWheel.Path
import StableWheel.Platform

/-! Extension modules: what a project declares and what a compiler needs.

A project declares a module by its name, the source of its generated parser, the source
that binds it, and further sources. `describe` fixes everything else: the include
directory, the macros that select the stable interface, and the flags of the platform. -/
namespace StableWheel

/-- A module as a project declares it. -/
structure DeclaredModule where
  name : String
  parserSource : Path
  bindingSource : Path
  extraSources : List Path
  deriving Repr, DecidableEq

/-- Everything a compiler needs to know of one module. -/
structure ExtensionSpec where
  moduleName : String
  /-- The dotted package the module is placed in. -/
  package : Option String
  /-- The sources in the order in which they are compiled. -/
  sources : List Path
  includeDirs : List Path
  /-- Macros by name; one without a value is only defined. -/
  macros : List (String × Option String)
  compileFlags : List String
  /-- Whether the module binds to the stable interface only. -/
  stable : Bool
  deriving Repr, DecidableEq

/-- The sources that every module has to have. -/
inductive SourceRole where
  | parser
  | binding
  deriving Repr, DecidableEq

def SourceRole.name : SourceRole → String
  | parser => "parser"
  | binding => "binding"

/-- What is wrong with a module before any compiler runs. -/
inductive SpecError where
  | missingName
  | missingSource (module : String) (role : SourceRole)
  | noSources (module : String)
  | missingLimitedApi (module : String)
  deriving Repr, DecidableEq

def SpecError.message : SpecError → String
  | missingName => "extension module declared without a name"
  | missingSource module role => "extension `" ++ module ++ "` has no " ++ role.name ++ " source"
  | noSources module => "extension `" ++ module ++ "` has no sources to compile"
  | missingLimitedApi module =>
    "extension `" ++ module ++ "` is stable-ABI but does not define Py_LIMITED_API"

namespace ExtensionSpec

/-! ### Names and places -/

/-- The module's name with its package in front. -/
def fullName (s : ExtensionSpec) : String :=
  match s.package with
  | some package => if package.isEmpty then s.moduleName else package ++ "." ++ s.moduleName
  | none => s.moduleName

/-- Whether a macro is defined, with a value or without. -/
def defines (s : ExtensionSpec) (name : String) : Bool := (s.macros.lookup name).isSome

/-- The value of a macro that has one. -/
def macroValue (s : ExtensionSpec) (name : String) : Option String := (s.macros.lookup name).join

/-- The file a module is compiled to. For the stable interface its name carries no
version, so every interpreter imports the same file. -/
def artifactName (s : ExtensionSpec) (platform : Platform) : String :=
  s.moduleName ++ if s.stable then platform.stableSuffix else platform.plainSuffix

/-- Where the compiled module goes below a directory. -/
def artifactPath (s : ExtensionSpec) (below : Path) (platform : Platform) : Path :=
  let package := match s.package with
    | some p => below.extend (Text.filledPieces '.' p)
    | none => below
  package.join ⟨s.artifactName platform⟩

/-! ### Describing -/

/-- The macro that limits the interface to a version. -/
def limitedApi : String := "Py_LIMITED_API"

/-- The macro that selects wide sizes in argument parsing. -/
def sizeTClean : String := "PY_SSIZE_T_CLEAN"

/-- The macros of every described module, by name. -/
def stableMacros (minimum : Version) : List (String × Option String) :=
  [(sizeTClean, none), (limitedApi, some minimum.hex)]

/-- Where generated parsers have their headers. -/
def generatedInclude : Path := ⟨"src"⟩

/-- What a compiler may rely on: there is something to compile, and a module for the stable
interface says for which version. -/
def validate (s : ExtensionSpec) : Except SpecError Unit :=
  if s.sources.isEmpty then .error (.noSources s.moduleName)
  else if s.stable && (s.macroValue limitedApi).isNone then
    .error (.missingLimitedApi s.moduleName)
  else .ok ()

/-- The specification of a declared module, before it is checked. -/
def ofDeclared (platform : Platform) (package : Option String) (m : DeclaredModule) :
    ExtensionSpec :=
  { moduleName := Text.trim m.name
    package := package.filter fun p => !p.isEmpty
    sources := (m.parserSource :: m.bindingSource :: m.extraSources).filter fun p => !p.isEmpty
    includeDirs := [generatedInclude]
    macros := stableMacros Version.stableMinimum
    compileFlags := platform.dialectFlags
    stable := true }

/-- The specification of a declared module. The name is looked at first, then the parser's
source, then the binding's. -/
def describe (platform : Platform) (package : Option String) (m : DeclaredModule) :
    Except SpecError ExtensionSpec :=
  let name := Text.trim m.name
  if name.isEmpty then .error .missingName
  else if m.parserSource.isEmpty then .error (.missingSource name .parser)
  else if m.bindingSource.isEmpty then .error (.missingSource name .binding)
  else
    let spec := ofDeclared platform package m
    spec.validate.map fun _ => spec

/-- The specifications of all declared modules, or what is wrong with the first bad one. -/
def describeAll (platform : Platform) (package : Option String) (ms : List DeclaredModule) :
    Except SpecError (List ExtensionSpec) :=
  ms.mapM (describe platform package)

end ExtensionSpec
end StableWheel
