import StableWheel.Document.Toml.Text
import StableWheel.Extension
import StableWheel.Package.Layout

/-! Project descriptions.

A description names the package and its version, says how packages are laid out and which
extension modules there are, and may say where results go. It is read from a document and
then checked: it has to have a name and a version, and no two modules may share a name. -/
namespace StableWheel

/-- What a project says about its package. -/
structure PackageSection where
  name : String
  version : String
  summary : Option String
  requiresPython : Option String
  /-- The dotted package that extension modules are placed in. -/
  extPackage : Option String
  layout : PackageLayout
  deriving Repr, DecidableEq

/-- Where results go, as far as it is said. -/
structure OutputDirs where
  build : Option Path
  dist : Option Path
  deriving Repr, DecidableEq

/-- Nothing is said. -/
def OutputDirs.unset : OutputDirs := ⟨none, none⟩

/-- A project description. -/
structure ProjectConfig where
  package : PackageSection
  extensions : List DeclaredModule
  build : OutputDirs
  deriving Repr, DecidableEq

/-- What is wrong with the content of a description. -/
inductive Defect where
  | emptyName
  | noVersion (package : String)
  | repeatedExtension (name : String)
  deriving Repr, DecidableEq

def Defect.message : Defect → String
  | emptyName => "package name is empty"
  | noVersion package => "package `" ++ package ++ "` has no version"
  | repeatedExtension name => "extension `" ++ name ++ "` is declared more than once"

/-! ### Checking -/

namespace ProjectConfig

/-- The first module whose name, blanks around it aside, occurred before. A module without
a name is not counted. -/
def firstRepeated : List String → List DeclaredModule → Option DeclaredModule
  | _, [] => none
  | seen, m :: rest =>
    let name := Text.trim m.name
    if name.isEmpty then firstRepeated seen rest
    else if seen.contains name then some m
    else firstRepeated (name :: seen) rest

/-- What no build can go without: a name, a version, and modules that can be told apart. -/
def validate (c : ProjectConfig) : Except Defect Unit :=
  if Text.allBlank c.package.name then .error .emptyName
  else if Text.allBlank c.package.version then .error (.noVersion c.package.name)
  else
    match firstRepeated [] c.extensions with
    | some m => .error (.repeatedExtension m.name)
    | none => .ok ()

/-- Whether any extension module is declared. -/
def hasExtensions (c : ProjectConfig) : Bool := !c.extensions.isEmpty

end ProjectConfig

/-! ### Reading -/

namespace Document
open Toml (dialect)

def declaredModuleFields : List Field :=
  [ .of "name" Reader.text, .of "parser-source" Reader.path, .of "binding-source" Reader.path,
    .of "extra-sources" (Reader.list Reader.path) ]

/-- A declared module. Only the further sources may be left out. -/
def declaredModule : Reader DeclaredModule :=
  Reader.record dialect "DeclaredModule" declaredModuleFields fun g => do
    return {
      name := ← g.required "name" Reader.text
      parserSource := ← g.required "parser-source" Reader.path
      bindingSource := ← g.required "binding-source" Reader.path
      extraSources := ← g.defaulted "extra-sources" (Reader.list Reader.path) [] }

/-- A directory that may be left out. -/
def optionalPath : Reader (Option Path) := Reader.nullable Reader.path

/-- Two directories, both of which may be left out. -/
def outputDirs (name : String) : Reader OutputDirs :=
  Reader.record dialect name [.of "build-dir" optionalPath, .of "dist-dir" optionalPath]
    fun g => do
      return {
        build := ← g.defaulted "build-dir" optionalPath none
        dist := ← g.defaulted "dist-dir" optionalPath none }

/-- A text that may be left out. -/
def optionalText : Reader (Option String) := Reader.nullable Reader.text

/-- The fields of a package section that are read where they stand. -/
def packageFields : List Field :=
  [ .of "name" Reader.text, .of "version" Reader.text, .of "summary" optionalText,
    .of "requires-python" optionalText, .of "ext-package" optionalText ]

def packagesReader : Reader (List String) := Reader.list Reader.text
def directoriesReader : Reader (List (String × Path)) := Reader.map Reader.path
def dataReader : Reader (List (String × List String)) := Reader.map (Reader.list Reader.text)

/-- The fields of a package section that are read after all others. -/
def layoutFields : List Field :=
  [ .of "packages" packagesReader, .of "package-dir" directoriesReader,
    .of "package-data" dataReader ]

/-- Visits a package section: its own fields where they stand, and everything else only to
keep it. -/
def visitPackage : List (String × Node) → Except Fault Unit
  | [] => .ok ()
  | (name, n) :: rest => do
    match packageFields.find? fun f => f.name == name with
    | some f => f.check n
    | none => discard (Reader.kept n)
    visitPackage rest

/-- A package section. The layout is read from what the section's own fields leave over. -/
def packageSection : Reader PackageSection
  | .table fields _ => do
    visitPackage fields
    let g : Given := ⟨fields, .missing⟩
    let name ← g.required "name" Reader.text
    let version ← g.required "version" Reader.text
    visit dialect layoutFields [] fields
    return {
      name, version
      summary := ← g.defaulted "summary" optionalText none
      requiresPython := ← g.defaulted "requires-python" optionalText none
      extPackage := ← g.defaulted "ext-package" optionalText none
      layout := {
        packages := ← g.defaulted "packages" packagesReader []
        directories := ← g.defaulted "package-dir" directoriesReader []
        data := ← g.defaulted "package-data" dataReader [] } }
  | n => .error (n.mismatch (.record "PackageSection"))

def extensionsReader : Reader (List DeclaredModule) := Reader.list declaredModule
def buildReader : Reader OutputDirs := outputDirs "BuildSection"

/-- A project description. Only the package section has to be there. -/
def projectConfig : Reader ProjectConfig :=
  Reader.record dialect "ProjectConfig"
    [ .of "package" packageSection, .of "extension" extensionsReader, .of "build" buildReader ]
    fun g => do
      return {
        package := ← g.required "package" packageSection
        extensions := ← g.defaulted "extension" extensionsReader []
        build := ← g.defaulted "build" buildReader .unset }

end Document

/-! ### Errors -/

/-- Why the text of a description gives none. -/
inductive DescriptionError where
  | unreadable (fault : Document.Fault)
  | invalid (defect : Defect)
  deriving Repr, DecidableEq

/-- Reads and checks a description. -/
def ProjectConfig.parse (s : String) : Except DescriptionError ProjectConfig :=
  match Document.Toml.read Document.projectConfig s with
  | .error fault => .error (.unreadable fault)
  | .ok c =>
    match c.validate with
    | .error defect => .error (.invalid defect)
    | .ok _ => .ok c

end StableWheel
