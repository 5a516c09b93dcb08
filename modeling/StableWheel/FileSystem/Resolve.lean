import StableWheel.FileSystem.Basic

/-! From paths to places.

A path is followed step by step from the root or from the working directory. Links are
followed wherever they occur; at the very end of a path the caller chooses. A separator at
the end asks for a directory, at the end of what a link leads to as well. Forty links may be
followed in one go. -/
namespace StableWheel

/-- What one piece of a path asks for. -/
inductive Step where
  | enter (name : String)
  | up
  | stay
  /-- A separator at the end: what comes before it has to be a directory. -/
  | inside
  deriving Repr, DecidableEq

/-- How the last step of a path is taken. -/
inductive Ending where
  /-- A link is not followed. -/
  | kept
  /-- A link is followed. -/
  | followed
  /-- A link is followed, and a file is to be written: a name with a separator after it is
  none for a file. -/
  | written
  deriving Repr, DecidableEq

namespace Step

/-- A piece between separators. -/
def ofPiece (piece : List Char) : Option Step :=
  if piece = [] then none
  else if piece = ['.'] then some stay
  else if piece = ['.', '.'] then some up
  else some (enter (String.ofList piece))

/-- The steps of a path, a separator at the end left out of account. -/
def named (p : Path) : List Step := (p.text.toList.splitOn '/').filterMap ofPiece

/-- Whether a path ends in a separator. -/
def wantsDirectory (p : Path) : Bool := p.text.toList.getLast? == some '/'

/-- The steps of a path. -/
def ofPath (p : Path) : List Step := named p ++ if wantsDirectory p then [inside] else []

end Step

namespace FileSystem

/-- The longest name of a file, in bytes. -/
def nameLimit : Nat := 255

/-- The longest path, in bytes. -/
def pathLimit : Nat := 4095

/-- How many links may be followed on the way to one place. -/
def linkLimit : Nat := 40

/-- Where a path starts from. -/
def origin (place : Location) (p : Path) : Location :=
  if p.isAbsolute then [] else place

/-- Follows steps from a directory. Every step but the last has to lead to a directory; the
last one may lead to nothing. What a link leads to is left to `jump`. -/
def walkWith (fs : FileSystem) (ending : Ending)
    (jump : Location → List Step → Except FileError Location) :
    Location → List Step → Except FileError Location
  | place, [] => .ok place
  | place, .stay :: rest | place, .inside :: rest => walkWith fs ending jump place rest
  | place, .up :: rest => walkWith fs ending jump place.dropLast rest
  | place, .enter name :: rest =>
    if ending = .written && rest == [.inside] then .error (.os .isDirectory)
    else if nameLimit < name.utf8ByteSize then .error (.os .nameTooLong)
    else
      let next := place ++ [name]
      match fs.lookup next with
      | none => if rest.isEmpty then .ok next else .error (.os .noEntry)
      | some .directory => walkWith fs ending jump next rest
      | some (.file _) => if rest.isEmpty then .ok next else .error (.os .notDirectory)
      | some (.link target) =>
        if rest.isEmpty && ending = .kept then .ok next
        else jump (origin place target) (Step.ofPath target ++ rest)

/-- Follows steps and at most so many links. -/
def walk (fs : FileSystem) (ending : Ending) :
    Nat → Location → List Step → Except FileError Location
  | 0 => walkWith fs ending fun _ _ => .error (.os .linkLoop)
  | links + 1 => walkWith fs ending (walk fs ending links)

/-- What the system refuses before it looks at a single step. -/
def checkPath (p : Path) : Except FileError Unit :=
  if p.text.toList.contains '\x00' then .error .zeroByte
  else if p.isEmpty then .error (.os .noEntry)
  else if pathLimit < p.text.utf8ByteSize then .error (.os .nameTooLong)
  else .ok ()

/-- The place a path leads to, whether or not something is there. -/
def resolve (fs : FileSystem) (p : Path) (ending : Ending) : Except FileError Location := do
  checkPath p
  walk fs ending linkLimit (origin fs.workingDirectory p) (Step.ofPath p)

/-- What a path leads to, and where that is. -/
def find (fs : FileSystem) (p : Path) (ending : Ending) :
    Except FileError (Location × Entry) := do
  let place ← fs.resolve p ending
  match fs.lookup place with
  | some n => return (place, n)
  | none => throw (.os .noEntry)

/-- What a path leads to in the end. -/
def status (fs : FileSystem) (p : Path) : Except FileError Entry :=
  (fs.find p .followed).map Prod.snd

/-- Whether a path leads to a file. -/
def isFile (fs : FileSystem) (p : Path) : Bool :=
  match fs.status p with
  | .ok (.file _) => true
  | _ => false

/-- Whether a path leads to a directory. -/
def isDirectory (fs : FileSystem) (p : Path) : Bool :=
  match fs.status p with
  | .ok .directory => true
  | _ => false

/-- Whether a path names anything at all, a link that leads nowhere included. -/
def exists? (fs : FileSystem) (p : Path) : Bool := (fs.find p .kept).isOk

/-- A place as a path. -/
def pathOf (place : Location) : Path := ⟨"/" ++ Text.join "/" place⟩

/-- The path without links, dots and repeated separators that leads to the same place. -/
def canonical (fs : FileSystem) (p : Path) : Except FileError Path :=
  (fs.find p .followed).map fun found => pathOf found.1

end FileSystem
end StableWheel
