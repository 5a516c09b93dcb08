import StableWheel.Host
import StableWheel.Interpreter.Report

/-! Finding an interpreter and asking it about itself. -/
namespace StableWheel

/-- Why there is no report. -/
inductive InterpreterError where
  | notFound
  | cannotStart (program : String) (e : FileError)
  | failed (program errors : String)
  | badReport (fault : Document.Fault)
  | badVersion (text : String)
  deriving Repr, DecidableEq

namespace InterpreterError

/-- The words for a report that cannot be read. -/
def reportMessage (fault : Document.Fault) : String :=
  fault.message?.getD "the report is not well formed"

def message : InterpreterError → String
  | notFound => "no Python interpreter found (set PYTHON or put python3 on PATH)"
  | cannotStart program e => "failed to run " ++ program ++ ": " ++ e.message
  | failed program errors => program ++ " exited with an error:\n" ++ errors
  | badReport fault => "unexpected interpreter output: " ++ reportMessage fault
  | badVersion text => "invalid Python version: " ++ text

/-- What lies behind an error, in words. -/
def cause? : InterpreterError → Option String
  | cannotStart _ e => some e.message
  | badReport fault => some (reportMessage fault)
  | _ => none

end InterpreterError

/-- The version a text starts with. -/
def Version.parse (s : String) : Except InterpreterError Version :=
  match Version.parse? s with
  | some v => .ok v
  | none => .error (.badVersion s)

namespace Interpreter

/-- The names under which an interpreter is looked for. -/
def candidates : List String := ["python3", "python"]

/-- The first candidate that answers when it is asked for its version. -/
def firstAnswering (h : Host) : List String → Task InterpreterError String
  | [] => throw .notFound
  | candidate :: rest => do
    match ← Task.attempt (h.start candidate ["--version"]) with
    | .ok finished =>
      if finished.succeeded then return candidate else firstAnswering h rest
    | .error _ => firstAnswering h rest

/-- The interpreter to use: the given one, the one the environment names, or the first that
answers. -/
def locate (h : Host) (given : Option String) : Task InterpreterError String :=
  match given.or h.environment.python with
  | some program => return program
  | none => firstAnswering h candidates

/-- What makes an interpreter print its report. -/
def script : String :=
  "\nimport json, sys, sysconfig\nprint(json.dumps(\x7b\n"
    ++ "    \"implementation\": sys.implementation.name,\n"
    ++ "    \"major\": sys.version_info[0],\n"
    ++ "    \"minor\": sys.version_info[1],\n"
    ++ "    \"soabi\": sysconfig.get_config_var(\"SOABI\"),\n"
    ++ "    \"include_dir\": sysconfig.get_paths()[\"include\"],\n"
    ++ "    \"platform\": sysconfig.get_platform(),\n"
    ++ "    \"ext_suffix\": sysconfig.get_config_var(\"EXT_SUFFIX\"),\n"
    ++ "    \"base_prefix\": sys.base_prefix,\n\x7d))\n"

/-- Runs an interpreter and reads its report. -/
def report (h : Host) (program : String) : Task InterpreterError Report := do
  Task.note ("introspecting " ++ program)
  let finished ← (h.start program ["-c", script]).explain (.cannotStart program)
  if !finished.succeeded then
    throw (.failed program (Text.trim (Text.Utf8.lenient finished.errors)))
  Task.ofExcept
    ((Report.parse (Text.Utf8.lenient finished.output)).mapError .badReport)

end Interpreter
end StableWheel
