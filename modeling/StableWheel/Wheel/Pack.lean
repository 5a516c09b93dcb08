import StableWheel.Session
import StableWheel.Wheel.Metadata
import StableWheel.Wheel.Record

/-! Packing: a staged tree becomes a wheel.

The files of the tree come first, in the order of their names, then the files that describe
the wheel, the list of all files last. The archive grows in a temporary file next to its
target and is moved into place once it is complete; if anything fails on the way, the
temporary file is removed. -/
namespace StableWheel

/-- Why a wheel cannot be written. -/
inductive WheelError where
  | access (path : Path) (e : FileError)
  /-- The staged tree cannot be gone through. -/
  | walk (staging : Path) (e : FileError)
  | archive (e : Archive.Repeated)
  deriving Repr, DecidableEq

namespace WheelError

/-- What lies behind an error, in words, the nearest cause first. -/
def causes : WheelError → List String
  | access _ e => [e.message]
  | walk staging e => ["IO error for operation on " ++ staging.text ++ ": " ++ e.message, e.message]
  | archive e => [e.message]

def message : WheelError → String
  | access path e => "failed to access " ++ path.text ++ ": " ++ e.message
  | walk staging e =>
    "failed to access " ++ staging.text ++ ": IO error for operation on " ++ staging.text ++ ": "
      ++ e.message
  | archive e => "failed to write wheel archive: " ++ e.message

end WheelError

/-! ### Walking the tree -/

namespace FileSystem

/-- The place of the tree that a path names. A link to a directory counts as the directory, a
link to a file as nothing. -/
def treeAt (fs : FileSystem) (p : Path) : Except FileError (Option Location) := do
  match ← fs.find p .kept with
  | (_, .link _) =>
    match ← fs.find p .followed with
    | (target, .directory) => return some target
    | _ => return none
  | (place, _) => return some place

/-- The files at a place and below it, by the names that lead to them, in rising order. -/
def filesBelow (fs : FileSystem) (place : Location) : List Location :=
  let below := fs.entries.filterMap fun e =>
    match e.2 with
    | .file _ => place.isPrefixOf? e.1
    | _ => none
  below.mergeSort fun a b => (compare a b).isLE

end FileSystem

/-! ### Members -/

/-- Modules may be executed once they are unpacked, other files may not. -/
def isModuleName (name : String) : Bool :=
  ".so".toList.isSuffixOf name.toList || ".pyd".toList.isSuffixOf name.toList

/-- A member of a wheel. -/
def wheelMember (name : String) (content : ByteArray) : Archive.Member :=
  ⟨name, isModuleName name, content⟩

/-- The list of all members, which names itself last. -/
def recordText (members : List Archive.Member) (recordName : String) : String :=
  Record.text (members.map (fun m => Record.Row.ofFile m.name m.content)
    ++ [Record.Row.ofList recordName])

namespace Wheel

def metadataName (w : Wheel) : String := w.infoDir ++ "/METADATA"
def wheelFileName (w : Wheel) : String := w.infoDir ++ "/WHEEL"
def recordName (w : Wheel) : String := w.infoDir ++ "/RECORD"

/-- The files that describe the wheel, behind those that are staged. -/
def describe (w : Wheel) (staged : List Archive.Member) :
    Except Archive.Repeated (List Archive.Member) := do
  let members ← Archive.add staged (wheelMember w.metadataName w.metadata.toUTF8)
  let members ← Archive.add members (wheelMember w.wheelFileName w.wheelFile.toUTF8)
  Archive.add members
    (wheelMember w.recordName (recordText members w.recordName).toUTF8)

end Wheel

/-! ### Packing -/

namespace Packing

/-- Names for a temporary file. -/
def temporaryName (n : Nat) : String := ".tmp" ++ Decimal.natural n

/-- A name that is not taken in a directory. -/
def freshName (fs : FileSystem) (directory : Location) : Option String :=
  let candidates := (List.range ((fs.names directory).length + 1)).map temporaryName
  candidates.find? fun name => (fs.lookup (directory ++ [name])).isNone

/-- An archive as a file. -/
def archiveFile (members : List Archive.Member) : File := ⟨.archive members, false⟩

/-- Creates an empty temporary file in a directory and says where it is. -/
def createTemporary (fs : FileSystem) (directory : Path) : FileSystem.Outcome Location :=
  match fs.find directory .followed with
  | .error e => (.error e, fs)
  | .ok (place, _) =>
    match freshName fs place with
    | none => (.error (.os .exists), fs)
    | some name => (.ok (place ++ [name]), fs.put (place ++ [name]) (.file (archiveFile [])))

/-- Adds staged files to the archive in the temporary file, reading each one when its turn
comes. -/
def addStaged (temporary tree : Location) :
    List Location → List Archive.Member → Task WheelError (List Archive.Member)
  | [], members => return members
  | names :: rest, members => do
    let content ← match (← Task.files).lookup (tree ++ names) with
      | some (.file f) => pure f.content.bytes
      | _ => throw (.access (FileSystem.pathOf (tree ++ names)) (.os .noEntry))
    let members ← Task.ofExcept
      ((Archive.add members (wheelMember (Text.join "/" names) content)).mapError .archive)
    Task.onFiles (fun fs => (.ok (), fs.put temporary (.file (archiveFile members))))
      (.access ⟨""⟩)
    addStaged temporary tree rest members

/-- Everything between creating the temporary file and moving it into place. -/
def fill (w : Wheel) (temporary : Location) (staging : Path) :
    Task WheelError (List Archive.Member) := do
  let tree ← Task.ofExcept (((← Task.files).treeAt staging).mapError (.walk staging))
  let staged ← match tree with
    | none => pure []
    | some place => addStaged temporary place ((← Task.files).filesBelow place) []
  Task.ofExcept ((w.describe staged).mapError .archive)

/-- Removes the temporary file if the rest fails. -/
def cleaningUp {α : Type} (temporary : Location) (t : Task WheelError α) : Task WheelError α :=
  Task.ofRun fun s =>
    match t.run s with
    | (.ok a, s) => (.ok a, s)
    | (.error e, s) => (.error e, { s with files := s.files.remove temporary })

end Packing

/-- Packs a staged tree into a wheel in a directory and says where the wheel is. -/
def Wheel.pack (w : Wheel) (staging dist : Path) : Task WheelError Path := do
  Task.onFiles (·.createDirectories dist) (.access dist)
  let target := dist.join ⟨w.fileName⟩
  let temporary ← Task.onFiles (Packing.createTemporary · dist) (.access dist)
  Packing.cleaningUp temporary do
    let members ← Packing.fill w temporary staging
    Task.onFiles (·.moveFile temporary (Packing.archiveFile members) target) (.access target)
  Task.note ("wrote " ++ target.text)
  return target

end StableWheel
