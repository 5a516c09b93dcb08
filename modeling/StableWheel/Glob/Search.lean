import StableWheel.FileSystem.Operations
import StableWheel.Glob.Pattern

/-! Finding the paths that match a pattern.

A pattern is taken component by component. A component without special characters is
looked up directly; any other one is compared with every name in the directory, in rising
order. Two stars go down into every directory below, links to directories included. A link
may lead upwards again, but no path gets longer than the system allows. -/
namespace StableWheel.Glob

/-- A path that was reached, and whether it leads to a directory. -/
structure Reached where
  path : Path
  directory : Bool
  deriving Repr, DecidableEq

/-- What is left to look at. -/
inductive Pending where
  /-- A path that matches as it is. -/
  | found (r : Reached)
  /-- An entry of a directory, to be compared with the first component. -/
  | entry (r : Reached) (components : List (List Token))
  /-- A directory that could not be read. -/
  | unreadable (p : Path) (e : FileError)

/-- A path with what it leads to. -/
def reach (fs : FileSystem) (p : Path) : Reached := ⟨p, fs.isDirectory p⟩

/-- A name below a path; the working directory itself does not show in paths. -/
def below (p : Path) (name : String) : Path :=
  if p.same ⟨"."⟩ then ⟨name⟩ else p.join ⟨name⟩

def isDots (name : String) : Bool := name == "." || name == ".."

/-- What components lead to from a path, as far as that can be told without comparing
names. -/
def expand (fs : FileSystem) : List (List Token) → Reached → List Pending
  | [], _ => []
  | component :: rest, r =>
    let goOn (next : Reached) : List Pending :=
      if rest.isEmpty then [.found next] else expand fs rest next
    match literal? component with
    | some cs =>
      let name := String.ofList cs
      let next := below r.path name
      let present :=
        if isDots name then r.directory else (fs.status next).isOk || fs.exists? next
      if present then goOn (reach fs next) else []
    | none =>
      if !r.directory then []
      else
        match fs.readDirectory r.path with
        | .error e => [.unreadable r.path e]
        | .ok names =>
          let dots :=
            if component.head? == some (.char '.') then
              ["..", "."].filter fun name => fits component name.toList
            else []
          dots.flatMap (fun name => goOn (reach fs (r.path.join ⟨name⟩)))
            ++ names.map fun name => .entry (reach fs (below r.path name)) (component :: rest)

/-- Without the components at the front that stand for any number of directories. -/
def dropDirectories (components : List (List Token)) : List (List Token) :=
  components.dropWhile isDirectories

/-- A path, unless a directory is wanted and it leads to none. -/
def Reached.result (r : Reached) (wantsDirectory : Bool) : List (Except (Path × FileError) Path) :=
  if wantsDirectory && !r.directory then [] else [.ok r.path]

/-- Compares an entry with the first component. `deeper` looks at what lies below. -/
def compare (fs : FileSystem) (wantsDirectory : Bool)
    (deeper : Pending → List (Except (Path × FileError) Path)) (r : Reached) :
    List (List Token) → List (Except (Path × FileError) Path)
  | [] => []
  | component :: rest =>
    match r.path.fileName with
    | none => []
    | some name =>
      if !(fits component name.toList) then []
      else if rest.isEmpty then r.result wantsDirectory
      else (expand fs rest r).flatMap deeper

/-- All that comes of something left to look at, going down at most so many times. -/
def collect (fs : FileSystem) (wantsDirectory : Bool) :
    Nat → Pending → List (Except (Path × FileError) Path)
  | 0, _ => []
  | depth + 1, pending =>
    let deeper := collect fs wantsDirectory depth
    match pending with
    | .found r => r.result wantsDirectory
    | .unreadable p e => [.error (p, e)]
    | .entry r components =>
      if (components.head?.map isDirectories).getD false then
        let rest := dropDirectories components
        let contents :=
          if r.directory then (expand fs ([.directories] :: rest) r).flatMap deeper else []
        let itself :=
          if rest.isEmpty then if r.directory then [.ok r.path] else []
          else compare fs wantsDirectory deeper r rest
        itself ++ contents
      else compare fs wantsDirectory deeper r components

/-- The texts between separators; nothing comes after a separator at the end. -/
def componentTexts (cs : List Char) : List (List Char) :=
  let parts := cs.splitOn '/'
  if parts.getLast? == some [] then parts.dropLast else parts

/-- A pattern ready for a search. -/
structure Query where
  scope : Path
  components : List (List Token)
  wantsDirectory : Bool

/-- Reads a whole pattern and then each of its components. -/
def Query.ofText (cs : List Char) : Except PatternError Query := do
  let _ ← compile cs
  let absolute := cs.head? == some '/'
  let components ← (componentTexts (if absolute then cs.drop 1 else cs)).mapM compile
  return {
    scope := ⟨if absolute then "/" else "."⟩
    components := if cs = ['/'] then [[]] else components
    wantsDirectory := cs.getLast? == some '/' }

/-- The paths that match, and directories that could not be read, in the order in which they
are come upon. -/
def Query.run (q : Query) (fs : FileSystem) : List (Except (Path × FileError) Path) :=
  (expand fs q.components (reach fs q.scope)).flatMap
    (collect fs q.wantsDirectory (FileSystem.pathLimit + q.components.length))

end StableWheel.Glob
