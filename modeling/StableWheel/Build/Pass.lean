import StableWheel.Build.Sources
import StableWheel.Compiler.Toolchain
import StableWheel.Package.Staging

/-! A build pass: modules are compiled first, then packages are staged.

A pass remembers what it has done. Modules are compiled at most once: after a success they
are left alone, after a failure everything that this pass compiled is removed and the next
attempt starts from the first module. -/
namespace StableWheel

/-- Why a pass stops. -/
inductive BuildError where
  | sources (e : SourceError)
  | compileFailed (module reason output : String)
  | staging (e : StageError)
  deriving Repr, DecidableEq

namespace BuildError

def message : BuildError → String
  | sources e => e.message
  | compileFailed module reason output =>
    "failed to build extension `" ++ module ++ "`: " ++ reason ++ "\n" ++ output
  | staging e => "failed to stage package files: " ++ e.message

/-- What lies behind an error, in words, the nearest cause first. -/
def causes : BuildError → List String
  | staging e => e.message :: e.cause?.toList
  | _ => []

end BuildError

/-- The steps of a pass. -/
inductive BuildStep where
  | extensions
  | packages
  deriving Repr, DecidableEq

def BuildStep.name : BuildStep → String
  | extensions => "build_ext"
  | packages => "build_py"

/-- A pass: what there is to do, and what has been done. -/
structure BuildPass where
  context : CompileContext
  extensions : List ExtensionSpec
  layout : PackageLayout
  /-- Whether each step is announced. -/
  verbose : Bool
  /-- Whether all modules have been compiled. -/
  compiled : Bool
  /-- The steps so far, in order. -/
  steps : List BuildStep
  /-- The compiled modules, in the order of their declaration. -/
  artifacts : List Path
  /-- The files that were staged. -/
  staged : List Path
  /-- The modules the toolchain was asked for, in order. -/
  requests : List ExtensionSpec
  deriving Repr, DecidableEq

namespace BuildPass

/-- A pass in which nothing has been done. -/
def fresh (context : CompileContext) (extensions : List ExtensionSpec) (layout : PackageLayout)
    (verbose : Bool) : BuildPass :=
  ⟨context, extensions, layout, verbose, false, [], [], [], []⟩

/-- Whether any module is declared. -/
def hasExtensions (b : BuildPass) : Bool := !b.extensions.isEmpty

/-- An answer or an error, the pass and the session afterwards. -/
abbrev Outcome := Except BuildError Unit × BuildPass × Session

/-! ### Modules -/

/-- Announces something, if steps are announced. -/
def announce (b : BuildPass) (line : String) (s : Session) : Session :=
  if b.verbose then { s with printed := s.printed ++ [line] } else s

/-- Adds a line for those who want to see every step. -/
def noting (line : String) (s : Session) : Session := { s with notes := s.notes ++ [line] }

/-- Removes compiled modules, as far as that is possible. -/
def discard : List Path → Session → Session
  | [], s => s
  | artifact :: rest, s =>
    match s.files.removeFile s.refusals artifact with
    | (.ok _, fs) => discard rest { s with files := fs }
    | (.error e, fs) =>
      discard rest
        (noting ("could not remove " ++ artifact.text ++ ": " ++ e.message) { s with files := fs })

/-- The words for the end of a compilation. A session has no clock, so it takes no time. -/
def compiledNote (r : CompileResult) : String :=
  "compiled " ++ r.moduleName ++ " in 0ns (success: " ++ (if r.success then "true" else "false")
    ++ ")"

/-- Why a module was not compiled. -/
def failureOf (r : CompileResult) : BuildError :=
  .compileFailed r.moduleName (r.error.getD "compiler produced no module") r.output

/-- Asks the toolchain for one module. -/
def request (t : Toolchain) (b : BuildPass) (spec : ExtensionSpec) (s : Session) :
    CompileResult × BuildPass × Session :=
  let s := b.announce ("running build_ext for " ++ spec.fullName) s
  let (r, s) := t.compile b.requests.length spec b.context s
  (r, { b with requests := b.requests ++ [spec] }, noting (compiledNote r) s)

/-- Compiles modules one after the other, up to the first failure. -/
def compileEach (t : Toolchain) : List ExtensionSpec → BuildPass → Session → Outcome
  | [], b, s => (.ok (), { b with compiled := true }, s)
  | spec :: rest, b, s =>
    match request t b spec s with
    | (r, b, s) =>
      match r.success, r.artifact with
      | true, some artifact =>
        compileEach t rest { b with artifacts := b.artifacts ++ [artifact] } s
      | _, _ => (.error (failureOf r), { b with artifacts := [] }, discard b.artifacts s)

/-- Compiles all modules, unless that has been done. All sources have to be there before the
first one is compiled. -/
def buildExtensions (t : Toolchain) (b : BuildPass) (s : Session) : Outcome :=
  if b.compiled then
    (.ok (), b, noting "build_ext already ran in this pass, skipping" s)
  else
    match verifySources s.files b.context.root b.extensions with
    | .error e => (.error (.sources e), b, s)
    | .ok _ => compileEach t b.extensions { b with steps := b.steps ++ [BuildStep.extensions] } s

/-! ### Packages -/

/-- Stages all packages. -/
def buildPackages (b : BuildPass) (s : Session) : Outcome :=
  let s := b.announce "running build_py" s
  let b := { b with steps := b.steps ++ [BuildStep.packages] }
  match (b.layout.stage b.context.root b.context.buildLib).run s with
  | (.ok files, s) => (.ok (), { b with staged := b.staged ++ files }, s)
  | (.error e, s) => (.error (.staging e), b, s)

/-! ### The whole pass -/

/-- Compiles the modules, if any are declared, and then stages the packages. -/
def run (t : Toolchain) (b : BuildPass) (s : Session) : Outcome :=
  if b.hasExtensions then
    match buildExtensions t b s with
    | (.ok _, b, s) => buildPackages b s
    | stopped => stopped
  else buildPackages b s

end BuildPass
end StableWheel
