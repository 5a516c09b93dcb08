import StableWheel.Build.Pass
import StableWheel.Interpreter.Locate
import StableWheel.Project.Load
import StableWheel.Wheel.Pack

/-! Why a command fails, and how that is told: what failed first, then what lies behind it. -/
namespace StableWheel

/-- Why a command fails. -/
inductive CommandError where
  | noProject (path : Path) (e : FileError)
  | config (e : ConfigError)
  | spec (e : SpecError)
  | sources (e : SourceError)
  | noInterpreter (e : InterpreterError)
  | query (program : String) (e : InterpreterError)
  | build (e : BuildError)
  | pack (dist : Path) (e : WheelError)
  | badTag (m : Tag.Malformed)
  deriving Repr, DecidableEq

namespace CommandError

/-- What failed. -/
def message : CommandError → String
  | noProject path _ => "Project directory not found: " ++ path.text
  | config e => e.message
  | spec e => e.message
  | sources e => e.message
  | noInterpreter e => e.message
  | query program _ => "Failed to query Python interpreter " ++ program
  | build e => e.message
  | pack dist _ => "Failed to write wheel into " ++ dist.text
  | badTag _ => "Invalid --from tag"

/-- What lies behind it, the nearest cause first. -/
def causes : CommandError → List String
  | noProject _ e => [e.message]
  | config e => e.cause?.toList
  | spec _ => []
  | sources _ => []
  | noInterpreter e => e.cause?.toList
  | query _ e => e.message :: e.cause?.toList
  | build e => e.causes
  | pack _ e => e.message :: e.causes
  | badTag m => [m.message]

/-- The lines that tell of a failure. -/
def lines (e : CommandError) : List String :=
  ("error: " ++ e.message) :: e.causes.map fun c => "caused by: " ++ c

end CommandError
end StableWheel
