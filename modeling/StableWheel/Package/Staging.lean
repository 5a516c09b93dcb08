import StableWheel.Glob.Search
import StableWheel.Package.Layout
import StableWheel.Session

/-! Staging: packages are copied into the build tree.

Of each package the modules right in its directory are copied, then the data files that its
patterns match. A file keeps its place relative to the package's directory. Packages are
taken one after the other, and a pattern sees what was copied before it. -/
namespace StableWheel

/-- Why packages cannot be staged. -/
inductive StageError where
  | missingPackage (package : String) (path : Path)
  | badPattern (pattern : String) (e : Glob.PatternError)
  | unreadable (path : Path) (e : FileError)
  | copyFailed (source target : Path) (e : FileError)
  deriving Repr, DecidableEq

/-- The words for a text that is no pattern. -/
def Glob.PatternError.message (e : Glob.PatternError) : String :=
  "Pattern syntax error near position " ++ Decimal.natural e.position ++ ": " ++ e.reason.message

namespace StageError

/-- What lies behind an error, in words. -/
def cause? : StageError → Option String
  | missingPackage _ _ => none
  | badPattern _ e => some e.message
  | unreadable _ e => some e.message
  | copyFailed _ _ e => some e.message

def message : StageError → String
  | missingPackage package path =>
    "source directory for package `" ++ package ++ "` not found: " ++ path.text
  | badPattern pattern e =>
    "invalid package-data pattern `" ++ pattern ++ "`: " ++ e.message
  | unreadable path e => "failed to read " ++ path.text ++ ": " ++ e.message
  | copyFailed source target e =>
    "failed to copy " ++ source.text ++ " to " ++ target.text ++ ": " ++ e.message

end StageError

namespace PackageLayout

/-! ### What is copied -/

/-- Whether a path leads to a module. -/
def isModule (fs : FileSystem) (p : Path) : Bool := fs.isFile p && p.extension == some "py"

/-- The modules right in a directory, in the order of their paths. -/
def modulesIn (fs : FileSystem) (directory : Path) : Except StageError (List Path) :=
  match fs.readDirectory directory with
  | .error e => .error (.unreadable directory e)
  | .ok names =>
    .ok (((names.map fun name => directory.join ⟨name⟩).filter (isModule fs)).mergeSort Path.le)

/-- The pattern for files below a directory, the directory's own name taken literally. -/
def patternBelow (directory : Path) (pattern : String) : List Char :=
  Glob.escape directory.text.toList ++ '/' :: pattern.toList

/-- The files below a directory that match a pattern. -/
def matchesBelow (fs : FileSystem) (directory : Path) (pattern : String) :
    Except StageError (List Path) := do
  match Glob.Query.ofText (patternBelow directory pattern) with
  | .error e => throw (.badPattern pattern e)
  | .ok query =>
    let found ← (query.run fs).mapM fun r => r.mapError fun (p, e) => StageError.unreadable p e
    return found.filter fs.isFile

/-! ### Copying -/

/-- Where a file from a directory goes. -/
def targetOf (directory dest file : Path) : Path :=
  dest.join ((file.relativeTo directory).getD file)

/-- Creates the directories above a path. -/
def makeRoom (fs : FileSystem) (target : Path) : FileSystem.Outcome Unit :=
  match target.parent with
  | none => (.ok (), fs)
  | some above => fs.createDirectories above

/-- Copies one file to its place and says where that is. -/
def copyInto (directory dest file : Path) : Task StageError Path := do
  let target := targetOf directory dest file
  Task.onFiles (makeRoom · target) (.copyFailed file target)
  Task.onFiles (·.copy file target) (.copyFailed file target)
  return target

/-- Copies files one after the other. -/
def copyAll (directory dest : Path) : List Path → Task StageError (List Path)
  | [] => return []
  | file :: rest => do
    let target ← copyInto directory dest file
    return target :: (← copyAll directory dest rest)

/-- Copies what the patterns match, one pattern after the other. -/
def copyData (directory dest : Path) : List String → Task StageError (List Path)
  | [] => return []
  | pattern :: rest => do
    let found ← Task.ofExcept (matchesBelow (← Task.files) directory pattern)
    let targets ← copyAll directory dest found
    return targets ++ (← copyData directory dest rest)

/-- Where a package goes below a directory. -/
def destination (lib : Path) (package : String) : Path := lib.extend (parts package)

/-- Copies one package. -/
def stagePackage (l : PackageLayout) (root lib : Path) (package : String) :
    Task StageError (List Path) := do
  let source := root.join (l.sourceDir package)
  let dest := destination lib package
  if !(← Task.files).isDirectory source then throw (.missingPackage package source)
  let found ← Task.ofExcept (modulesIn (← Task.files) source)
  let modules ← copyAll source dest found
  let data ← copyData source dest (l.patterns package)
  Task.note ("staged package " ++ package ++ " from " ++ source.text)
  return modules ++ data

/-- Copies packages one after the other. -/
def stageEach (l : PackageLayout) (root lib : Path) : List String → Task StageError (List Path)
  | [] => return []
  | package :: rest => do
    let targets ← l.stagePackage root lib package
    return targets ++ (← stageEach l root lib rest)

/-- Copies all packages and says which files they are now, each once, in the order of their
paths. -/
def stage (l : PackageLayout) (root lib : Path) : Task StageError (List Path) := do
  return Path.sorted (← l.stageEach root lib l.packages)

end PackageLayout
end StableWheel
