import StableWheel.Environment
import StableWheel.Session

/-! The machine a command runs on: its variables, its kind, and how its programs behave.

A program is found as the system finds it: a name with a separator is a path, any other name
is looked for in the directories of the search path. What a program then does is up to the
host; it may change files. -/
namespace StableWheel

/-- How a program ended. -/
structure Finished where
  /-- The exit status, unless the program was killed. -/
  exit : Option Nat
  output : ByteArray
  errors : ByteArray

/-- Whether a program ended well. -/
def Finished.succeeded (f : Finished) : Bool := f.exit == some 0

/-- A machine. -/
structure Host where
  environment : Environment
  /-- The user's directory, where no variable names one. -/
  accountHome : Option Path
  /-- The name of the kind of machine, for compilers. -/
  target : String
  /-- The name of the operating system. -/
  system : String
  /-- The name of the kind of processor. -/
  processor : String
  /-- Whether the program at a place is a compiler that takes options with slashes, if it can
  tell. -/
  takesSlashes : Location → Option Bool
  /-- What the program at a place does when it is given arguments. -/
  behave : Location → List String → FileSystem → Finished × FileSystem
  /-- Removals that the system refuses. -/
  refusals : FileSystem.Refusals := fun _ _ => none

namespace Host

/-- The start of a session on the machine. -/
def session (h : Host) (fs : FileSystem) : Session :=
  { Session.ofFiles fs with refusals := h.refusals }

/-- The family of the machine. -/
def platform (h : Host) : Platform := Platform.ofSystem h.system

/-! ### Finding programs -/

/-- The place of a program that a path leads to. -/
def executableAt (fs : FileSystem) (p : Path) : Except FileError Location := do
  match ← fs.find p .followed with
  | (place, .file f) => if f.executable then return place else throw (.os .denied)
  | _ => throw (.os .denied)

/-- Looks through directories for a program. One that may not be executed is passed over, but
not forgotten. -/
def searchIn (fs : FileSystem) (name : String) (refused : FileError) :
    List String → Except FileError Location
  | [] => .error refused
  | directory :: rest =>
    let candidate := (Path.mk (if directory.isEmpty then "." else directory)).join ⟨name⟩
    match executableAt fs candidate with
    | .ok place => .ok place
    | .error (.os .denied) => searchIn fs name (.os .denied) rest
    | .error (.os .noEntry) | .error (.os .notDirectory) => searchIn fs name refused rest
    | .error e => .error e

/-- The place of a program. -/
def locate (h : Host) (fs : FileSystem) (program : String) : Except FileError Location :=
  if program.toList.contains '/' then executableAt fs ⟨program⟩
  else if program.isEmpty then .error (.os .noEntry)
  else
    let path := (h.environment.lenient "PATH").getD "/bin:/usr/bin"
    searchIn fs program (.os .noEntry) (Text.pieces ':' path)

/-- Whether a text holds a zero byte, at which the system would take it to end. -/
def holdsZero (s : String) : Bool := s.toUTF8.data.toList.contains 0

/-- The place of a program that can be started with these arguments. -/
def startable (h : Host) (fs : FileSystem) (program : String) (arguments : List String) :
    Except FileError Location :=
  if (program :: arguments).any holdsZero then .error .zeroInCommand
  else h.locate fs program

/-- Starts a program and waits for its end. -/
def start (h : Host) (program : String) (arguments : List String) :
    Task FileError Finished :=
  Task.ofRun fun s =>
    match h.startable s.files program arguments with
    | .error e => (.error e, s)
    | .ok place =>
      let (finished, fs) := h.behave place arguments s.files
      (.ok finished,
        { s with files := fs, started := s.started ++ [⟨program, arguments⟩] })

end Host
end StableWheel
