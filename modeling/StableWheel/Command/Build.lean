import StableWheel.Command.Arguments
import StableWheel.Command.Failure

/-! Building a project, and packing what was built.

Whatever can be found wrong without a compiler is found before one is looked for: the project,
the user's defaults, the declared modules, their sources, and last the interpreter. Nothing is
written before all of them are in order. -/
namespace StableWheel

/-! ### The interpreter -/

/-- The report of the interpreter to build against. -/
def introspect (h : Host) (python : Option String) : Task CommandError Report := do
  let program ← (Interpreter.locate h python).explain .noInterpreter
  let report ← (Interpreter.report h program).explain (.query program)
  Task.note ("building against " ++ report.implementation ++ " " ++ report.version.text ++ " ("
    ++ report.includeDir.text ++ ")")
  return report

/-- Says that a tag has a stable form. -/
def noteRewriting {ε : Type} (t : Tag) : Task ε Unit :=
  if Family.ofTag t.interpreter = .cpython then
    Task.note ("rewriting " ++ t.text ++ " to the stable ABI")
  else return

/-! ### Before the build -/

/-- The words for a specification that is complete. -/
def describedNote (platform : Platform) (s : ExtensionSpec) : String :=
  "described " ++ s.fullName ++ " for " ++ platform.name ++ " platform: "
    ++ Decimal.natural s.sources.length ++ " sources, flags ["
    ++ Text.join ", " (s.compileFlags.map Text.Quoted.quote) ++ "]"

/-- Describes modules one after the other. -/
def describeEach (platform : Platform) (package : Option String) :
    List DeclaredModule → Task CommandError (List ExtensionSpec)
  | [] => return []
  | m :: rest => do
    let spec ← Task.ofExcept ((ExtensionSpec.describe platform package m).mapError .spec)
    Task.note (describedNote platform spec)
    return spec :: (← describeEach platform package rest)

/-- A project that is ready to be built. -/
structure Plan where
  root : Path
  config : ProjectConfig
  defaults : OutputDirs
  buildDir : Path
  specs : List ExtensionSpec
  /-- The interpreter that modules are compiled against, if there are any. -/
  report : Option Report
  deriving Repr, DecidableEq

/-- Finds out everything a build needs, and whether it can start. -/
def plan (h : Host) (options : BuildOptions) : Task CommandError Plan := do
  let project := options.project
  let root ← Task.ofExcept
    (((← Task.files).canonical project).mapError (.noProject project))
  let config ← (ProjectConfig.load root).explain .config
  let defaults ← Task.ofExcept ((UserDefaults.load h (← Task.files)).mapError .config)
  let specs ← describeEach h.platform config.package.extPackage config.extensions
  Task.ofExcept ((verifySources (← Task.files) root specs).mapError .sources)
  let report ←
    if config.hasExtensions then some <$> introspect h options.python else pure none
  return {
    root, config, defaults, specs, report
    buildDir := config.buildDir h.environment root options.buildDir defaults }

/-! ### The build -/

namespace Plan

/-- Where the modules of a plan are compiled from and to. -/
def context (p : Plan) (platform : Platform) : CompileContext :=
  let c := CompileContext.ofBuildDir p.root p.buildDir platform
  match p.report with
  | some report => c.withReport report
  | none => c

/-- The pass that builds a plan. -/
def pass (p : Plan) (platform : Platform) (verbose : Bool) : BuildPass :=
  .fresh (p.context platform) p.specs p.config.package.layout verbose

/-- The wheel that the results are packed into. -/
def wheel (p : Plan) (platform : Option String) : Wheel :=
  ⟨p.config.package.name, p.config.package.version, Tag.ofWheel p.report platform,
    p.config.package.summary, p.config.package.requiresPython⟩

end Plan

/-- Runs a pass to its end. -/
def runPass (t : Toolchain) (b : BuildPass) : Task CommandError BuildPass :=
  Task.ofRun fun s =>
    match b.run t s with
    | (.ok _, b, s) => (.ok b, s)
    | (.error e, _, s) => (.error (.build e), s)

/-- Prints lines. -/
def printEach {ε : Type} : List String → Task ε Unit
  | [] => return
  | line :: rest => do
    Task.print line
    printEach rest

/-- Builds a project and says what was made. -/
def buildProject (h : Host) (options : BuildOptions) : Task CommandError Plan := do
  let p ← plan h options
  let done ← runPass (Toolchain.ofHost h h.target options.verbose)
    (p.pass h.platform options.verbose)
  printEach (done.artifacts.map fun a => "  Compiled " ++ a.text)
  if options.verbose then printEach (done.staged.map fun f => "  Staged " ++ f.text)
  return p

/-- The platform part of tags that someone asks for: on the command line, or else in the
environment. -/
def chosenPlatform (h : Host) (given : Option String) : Option String :=
  given.or h.environment.platformName

/-- Builds a project and packs it into a wheel. -/
def packProject (h : Host) (options : BuildOptions) (dist : Option Path)
    (platform : Option String) : Task CommandError Path := do
  let p ← buildProject h options
  let platform := chosenPlatform h platform
  if let some report := p.report then noteRewriting (Tag.ofReport report platform)
  let dist := p.config.distDir h.environment p.root dist p.defaults
  ((p.wheel platform).pack (p.context h.platform).buildLib dist).explain (.pack dist)

end StableWheel
