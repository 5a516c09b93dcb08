import StableWheel.Compiler.Arguments
import StableWheel.Host

/-! Compiling one module.

A toolchain turns a specification into a compiled module, or says why it could not. The one
of a host starts the host's compiler once for each module and believes its exit status. -/
namespace StableWheel

/-- How the compilation of a module ended. -/
structure CompileResult where
  moduleName : String
  success : Bool
  error : Option String
  /-- What the compiler printed. -/
  output : String
  /-- The compiled module. -/
  artifact : Option Path
  deriving Repr, DecidableEq

namespace CompileResult

def compiled (moduleName output : String) (artifact : Path) : CompileResult :=
  ⟨moduleName, true, none, output, some artifact⟩

def failed (moduleName error output : String) : CompileResult :=
  ⟨moduleName, false, some error, output, none⟩

end CompileResult

/-- Something that compiles modules. It is told how many it was asked for before, so that its
answers may change from one request to the next. -/
structure Toolchain where
  compile : Nat → ExtensionSpec → CompileContext → Session → CompileResult × Session

/-! ### The compiler of a host -/

/-- A compiler with the arguments that always come first. -/
structure Compiler where
  program : String
  /-- A program that is started in its stead and told to run it. -/
  wrapper : Option String
  baseline : List String
  style : CompilerStyle
  deriving Repr, DecidableEq

/-- Whether a target is named like one: a kind of processor, a dash, and a system. -/
def isTarget (target : String) : Bool := target.toList.contains '-'

namespace Compiler

/-- The program that compilers are called by where nothing else is said. -/
def defaultProgram : String := "cc"

/-- Programs that are put in front of a compiler. -/
def knownWrappers : List String :=
  ["ccache", "distcc", "sccache", "icecc", "cachepot", "buildcache"]

/-- How a compiler is called. -/
structure Call where
  wrapper : Option String
  program : String
  arguments : List String
  deriving Repr, DecidableEq

/-- The call that a text describes. A text that names a file is one program, whatever blanks
it holds. Otherwise the program comes first, after a wrapper if there is one, and its
arguments follow. -/
def Call.ofText (fs : FileSystem) (wrappers : List String) (value : String) : Call :=
  let whole := Text.trim value
  if whole.isEmpty then ⟨none, defaultProgram, []⟩
  else if (fs.status ⟨whole⟩).isOk then ⟨none, whole, []⟩
  else
    match Text.words whole with
    | [] => ⟨none, defaultProgram, []⟩
    | [program] => ⟨none, program, []⟩
    | first :: second :: rest =>
      if (Path.stem ⟨first⟩).any wrappers.contains then ⟨some first, second, rest⟩
      else ⟨none, first, second :: rest⟩

/-- The variables that may hold a setting for a target, the one that counts most first. -/
def variablesFor (target name : String) : List String :=
  let spelled := target.map fun c => if c == '-' || c == '.' then '_' else c
  [name ++ "_" ++ target, name ++ "_" ++ spelled, "HOST_" ++ name, name]

/-- The call that the variables ask for. The first one that is set counts, even if it is
blank. -/
def Call.ofVariables (env : Environment) (fs : FileSystem) (target : String) : Call :=
  let wrappers := knownWrappers ++ (env.text? "CC_KNOWN_WRAPPER_CUSTOM").toList
  Call.ofText fs wrappers (((variablesFor target "CC").findSome? env.lenient).getD "")

/-- More arguments from the variables, those that count most last. -/
def flagsFor (env : Environment) (target : String) : List String :=
  ((variablesFor target "CFLAGS").reverse.filterMap env.lenient).flatMap Text.words

/-- Whether a program that cannot be asked has the name of a compiler that takes options with
slashes. -/
def Call.namedForSlashes (c : Call) : Bool :=
  ((Path.mk c.program).fileName).any fun name =>
    let cs := name.toList
    Text.occursIn "clang-cl".toList cs || "cl".toList.isSuffixOf cs || name == "cl.exe"
      || (Text.occursIn "clang".toList cs && c.arguments.contains "--driver-mode=cl")

/-- What every compiler of a style is told about the code it makes. -/
def usualFlags : CompilerStyle → List String
  | .msvc => ["-nologo", "-MD", "-O2", "-Brepro"]
  | _ => ["-O2", "-ffunction-sections", "-fdata-sections", "-fPIC"]

/-- The compiler of a host for a target, if the target is known. -/
def resolve (h : Host) (fs : FileSystem) (target : String) : Option Compiler :=
  if !isTarget target then none
  else
    let call := Call.ofVariables h.environment fs target
    let told := (h.locate fs call.program).toOption.bind h.takesSlashes
    let style := CompilerStyle.of (told.getD call.namedForSlashes) target
    let flags := flagsFor h.environment target
    some ⟨call.program, call.wrapper, call.arguments ++ usualFlags style ++ flags, style⟩

/-- The program to start for a compiler, and its first arguments. -/
def invocation (c : Compiler) : String × List String :=
  match c.wrapper with
  | some wrapper => (wrapper, c.program :: c.baseline)
  | none => (c.program, c.baseline)

end Compiler

namespace Toolchain

/-- A failure before the compiler said anything. -/
structure Failure where
  error : String
  output : String

/-- Creates directories one after the other. -/
def makeDirectories : List Path → Task Failure Unit
  | [] => return
  | directory :: rest => do
    Task.onFiles (·.createDirectories directory) fun e =>
      ⟨"Failed to create " ++ directory.text ++ ": " ++ e.message, ""⟩
    makeDirectories rest

/-- The words for an exit status. -/
def exitText (exit : Option Nat) : String := (exit.map Decimal.natural).getD "unknown"

/-- The compiler to use, or why there is none. -/
def compilerFor (h : Host) (fs : FileSystem) (target : String) : Except Failure Compiler :=
  match Compiler.resolve h fs target with
  | some compiler => .ok compiler
  | none => .error ⟨"C compiler not found for " ++ target ++ ": unknown target", ""⟩

/-- Prints a line, if steps are announced. -/
def tell (verbose : Bool) (line : String) : Task Failure Unit :=
  if verbose then Task.print line else return

/-- What the compiler printed, or why its work does not count. Only its exit status is
looked at. -/
def judge (finished : Finished) : Except Failure String :=
  let output := Text.Utf8.lenient finished.output ++ Text.Utf8.lenient finished.errors
  if finished.succeeded then .ok output
  else .error ⟨"compiler failed with exit code: " ++ exitText finished.exit, output⟩

/-- Runs the compiler of a host on one module. -/
def compileOn (h : Host) (target : String) (verbose : Bool) (spec : ExtensionSpec)
    (context : CompileContext) : Task Failure (String × Path) := do
  let compiler ← Task.ofExcept (compilerFor h (← Task.files) target)
  let artifact := spec.artifactPath context.buildLib context.platform
  makeDirectories (artifact.parent.toList ++ [context.buildTemp])
  let call := compiler.invocation
  let arguments := call.2
    ++ compileArguments spec context artifact compiler.style h.environment.linkerFlags
  tell verbose ("Building C extension " ++ spec.fullName)
  tell verbose ("  Running: " ++ Text.join " " (call.1 :: arguments))
  Task.note ("compiler style " ++ compiler.style.name ++ " for target " ++ target)
  let finished ← (h.start call.1 arguments).explain fun e =>
    ⟨"Failed to run " ++ compiler.program ++ ": " ++ e.message, ""⟩
  let output ← Task.ofExcept (judge finished)
  tell verbose ("  Built " ++ artifact.text)
  return (output, artifact)

/-- The toolchain of a host. -/
def ofHost (h : Host) (target : String) (verbose : Bool) : Toolchain where
  compile _ spec context s :=
    match (compileOn h target verbose spec context).run s with
    | (.ok (output, artifact), s) => (.compiled spec.fullName output artifact, s)
    | (.error e, s) => (.failed spec.fullName e.error e.output, s)

end Toolchain
end StableWheel
