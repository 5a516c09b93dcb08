import StableWheel.FileSystem.Resolve
import StableWheel.Text.Utf8

/-! What is done with files: reading, writing, copying, creating and removing.

An operation gives its answer and the files as they are afterwards. A failed operation may
have done part of its work: directories that were created on the way stay. -/
namespace StableWheel.FileSystem

/-- An operation on files, with its answer and the files it leaves. -/
abbrev Outcome (α : Type) := Except FileError α × FileSystem

/-! ### Reading -/

/-- The names in a directory, in rising order. -/
def readDirectory (fs : FileSystem) (p : Path) : Except FileError (List String) := do
  match ← fs.find p .followed with
  | (place, .directory) => return fs.names place
  | _ => throw (.os .notDirectory)

/-- The file a path leads to. -/
def readFile (fs : FileSystem) (p : Path) : Except FileError File := do
  match ← fs.status p with
  | .file f => return f
  | _ => throw (.os .isDirectory)

/-- A file as text. -/
def readText (fs : FileSystem) (p : Path) : Except FileError String := do
  match Text.Utf8.strict? (← fs.readFile p).content.bytes with
  | some s => return s
  | none => throw .notText

/-! ### Directories -/

/-- Creates one directory. A separator at the end of the path does not matter. -/
def createDirectory (fs : FileSystem) (p : Path) : Outcome Unit :=
  let place := do
    checkPath p
    walk fs .kept linkLimit (origin fs.workingDirectory p) (Step.named p)
  match place with
  | .error e => (.error e, fs)
  | .ok place =>
    match fs.lookup place with
    | some _ => (.error (.os .exists), fs)
    | none => (.ok (), fs.put place .directory)

/-- A directory that may be there already. -/
def ensureDirectory (fs : FileSystem) (p : Path) : Outcome Unit :=
  match fs.createDirectory p with
  | (.ok _, fs) => (.ok (), fs)
  | (.error e, fs) => if fs.isDirectory p then (.ok (), fs) else (.error e, fs)

/-- Creates a directory and those it is in, going up at most so many steps. -/
def createUpwards (fs : FileSystem) : Nat → Path → Outcome Unit
  | 0, p => fs.ensureDirectory p
  | n + 1, p =>
    match fs.ensureDirectory p with
    | (.error (.os .noEntry), fs) =>
      match p.parent with
      | none => (.error (.os .noEntry), fs)
      | some above =>
        if above.isEmpty then fs.ensureDirectory p
        else
          match createUpwards fs n above with
          | (.error e, fs) => (.error e, fs)
          | (.ok _, fs) => fs.ensureDirectory p
    | done => done

/-- Creates a directory and those it is in, where they are missing. -/
def createDirectories (fs : FileSystem) (p : Path) : Outcome Unit :=
  if p.components.isEmpty then (.ok (), fs) else fs.createUpwards p.components.length p

/-! ### Files -/

/-- Gives a file new content, creating it if it is missing. -/
def write (fs : FileSystem) (p : Path) (f : File) : Outcome Unit :=
  match fs.resolve p .written with
  | .error e => (.error e, fs)
  | .ok place =>
    match fs.lookup place with
    | some .directory => (.error (.os .isDirectory), fs)
    | _ => (.ok (), fs.put place (.file f))

/-- Nothing, with the permissions of a file. -/
def File.emptied (f : File) : File := { f with content := .data ByteArray.empty }

/-- Copies a file. The target is emptied before anything is copied, so a file that is copied
onto itself ends up empty. -/
def copy (fs : FileSystem) (source target : Path) : Outcome Unit :=
  match fs.find source .followed with
  | .error e => (.error e, fs)
  | .ok (_, .directory) | .ok (_, .link _) => (.error (.os .isDirectory), fs)
  | .ok (origin, .file f) =>
    match fs.resolve target .written with
    | .ok place => if place = origin then fs.write target (File.emptied f) else fs.write target f
    | .error e => (.error e, fs)

/-- What the system says instead of removing what is at a place. Files do not show who may remove
them, so any answers are possible. -/
abbrev Refusals := FileSystem → Location → Option Errno

/-- Removes a file or a link, unless the system refuses to. -/
def removeFile (refusals : Refusals) (fs : FileSystem) (p : Path) : Outcome Unit :=
  match fs.find p .kept with
  | .error e => (.error e, fs)
  | .ok (_, .directory) => (.error (.os .isDirectory), fs)
  | .ok (place, _) =>
    match refusals fs place with
    | some e => (.error (.os e), fs)
    | none => (.ok (), fs.remove place)

/-- Moves a file to a path, in place of what is there unless that is a directory. -/
def moveFile (fs : FileSystem) (source : Location) (f : File) (target : Path) : Outcome Unit :=
  match fs.resolve target .kept with
  | .error .zeroByte => (.error (.os .invalid), fs)
  | .error e => (.error e, fs)
  | .ok place =>
    match fs.lookup place with
    | some .directory => (.error (.os .isDirectory), fs)
    | _ =>
      if Step.wantsDirectory target then (.error (.os .notDirectory), fs)
      else (.ok (), (fs.remove source).put place (.file f))

end StableWheel.FileSystem
