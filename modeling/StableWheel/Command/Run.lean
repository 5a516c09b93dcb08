import StableWheel.Command.Build
import StableWheel.Command.Usage

/-! Running a command line.

A command prints what it was asked for; steps and errors are told on a channel of their own.
The exit status is 0 if all went well, 1 if a command failed and 2 if there was no command. -/
namespace StableWheel

/-! ### Commands -/

/-- Prints the tag of the wheels that a build would make, or of one with a given tag. -/
def printTag (h : Host) (given platform python : Option String) : Task CommandError Unit := do
  let platform := chosenPlatform h platform
  let tag ← match given with
    | some text => do
      let t ← Task.ofExcept ((Tag.parse text).mapError .badTag)
      pure { t with platform := (platform.map Tag.normalizePlatform).getD t.platform }
    | none => do
      let report ← introspect h python
      pure (Tag.ofReport report platform)
  Task.note ("default tag " ++ tag.text)
  noteRewriting tag
  Task.print (tag.stabilised Version.stableMinimum).text

/-- The words for the compiler of a host. -/
def compilerLines (h : Host) (fs : FileSystem) : List String :=
  let found := match Compiler.resolve h fs h.target with
    | some c => c.program
    | none => "(not found: unknown target " ++ h.target ++ ")"
  ("  Compiler:     " ++ found)
    :: h.environment.compiler.toList.map fun cc => "  CC:           " ++ cc

/-- Prints what an interpreter reports, and the tags that follow from it. -/
def printReport (h : Host) (report : Report) : Task CommandError Unit := do
  let tag := Tag.ofReport report h.environment.platformName
  printEach
    [ "  Implementation: " ++ report.implementation ++ " (" ++ report.family.name ++ ")",
      "  Version:        " ++ report.version.text,
      "  Include:        " ++ report.includeDir.text,
      "  Default tag:    " ++ tag.text ]
  noteRewriting tag
  Task.print ("  Wheel tag:      " ++ (tag.stabilised Version.stableMinimum).text)

/-- Prints what is known of the platform, the compiler and the interpreter. An interpreter that
cannot be asked is no failure here. -/
def printPlatform (h : Host) (python : Option String) : Task CommandError Unit := do
  printEach
    [ "Platform Information:", "",
      "  Family:       " ++ h.platform.name,
      "  Target:       " ++ h.target,
      "  C flags:      " ++ Text.join " " h.platform.dialectFlags,
      "  Module:       <name>" ++ h.platform.stableSuffix ]
  printEach (compilerLines h (← Task.files))
  printEach ["", "Python Information:"]
  let asked ← Task.attempt (do Interpreter.report h (← Interpreter.locate h python))
  match asked with
  | .ok report => printReport h report
  | .error e =>
    printEach
      [ "  (not detected: " ++ e.message ++ ")",
        "  Platform tag:   " ++ fallbackPlatformTag h.system h.processor ]

/-- Runs a command. -/
def Command.run (h : Host) : Command → Task CommandError Unit
  | .build options => do
    let p ← buildProject h options
    Task.print ("Built " ++ p.config.package.name ++ " " ++ p.config.package.version ++ " into "
      ++ (p.context h.platform).buildLib.text)
  | .bdistWheel options dist tagged => do
    let wheel ← packProject h options dist tagged
    Task.print ("Created " ++ wheel.text)
  | .tag given tagged python => printTag h given tagged python
  | .platform python => printPlatform h python
  | .completion shell => printEach (completionScript shell)

/-! ### Command lines -/

/-- What the caller of the program sees. -/
structure Outcome where
  exit : Nat
  /-- The printed lines. -/
  printed : List String
  /-- The lines on the other channel. -/
  told : List String
  session : Session

/-- Runs a request on a machine. -/
def Request.run (h : Host) (r : Request) (fs : FileSystem) : Outcome :=
  let (result, s) := (r.command.run h).run (h.session fs)
  let notes := if r.debug then s.notes.map fun line => "[DEBUG] " ++ line else []
  match result with
  | .ok _ => ⟨0, s.printed, notes, s⟩
  | .error e => ⟨1, s.printed, notes ++ e.lines, s⟩

/-- What the caller sees where there is no command to run. -/
def Detour.outcome (fs : FileSystem) : Detour → Outcome
  | help about => ⟨0, helpText about, [], .ofFiles fs⟩
  | version => ⟨0, [versionLine], [], .ofFiles fs⟩
  | usage e => ⟨2, [], ["error: " ++ e.message], .ofFiles fs⟩

/-- Runs a command line on a machine. -/
def runLine (h : Host) (arguments : List String) (fs : FileSystem) : Outcome :=
  match Request.read arguments with
  | .ok request => request.run h fs
  | .error detour => detour.outcome fs

end StableWheel
