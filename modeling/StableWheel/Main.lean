import StableWheel.Command.Run

/-! The program on the machine it runs on.

It reads its arguments, its variables and the files it is to work on, leaves the work to
`StableWheel.runLine`, and then prints and writes what came of it. The files of a project are
named on standard input, one a line. Other programs are out of reach, so modules cannot be
compiled here. -/
namespace StableWheel.Program

/-- The kind of machine, for compilers. -/
def target : String := "x86_64-unknown-linux-gnu"

/-- The variables that a command line may depend on. -/
def variableNames : List String :=
  [ "CC_KNOWN_WRAPPER_CUSTOM", "LDFLAGS", "PATH", "PYTHON", "HOME", "XDG_CONFIG_HOME",
    "WHEELWRIGHT_PLATFORM", "WHEELWRIGHT_BUILD_DIR", "WHEELWRIGHT_DIST_DIR",
    "WHEELWRIGHT_NO_CONFIG" ]
    ++ ["CC", "CFLAGS"].flatMap (Compiler.variablesFor target)

def readVariables : IO Environment := do
  let found ← variableNames.filterMapM fun name => do
    return (← IO.getEnv name).map fun value => (name, value.toUTF8)
  return fun name => found.lookup name

/-- The machine, without any program that could be started. -/
def machine (environment : Environment) : Host where
  environment
  accountHome := none
  target
  system := "linux"
  processor := "x86_64"
  takesSlashes _ := none
  behave _ _ fs := (⟨none, ByteArray.empty, ByteArray.empty⟩, fs)

/-- The lines of a stream up to its end. -/
partial def readLines (input : IO.FS.Stream) : IO (List String) := do
  let line ← input.getLine
  if line.isEmpty then return []
  return Text.trim line :: (← readLines input)

/-- Adds a file of the machine, together with the directories it is in. -/
def load (fs : FileSystem) (path : Path) : IO FileSystem := do
  let content ← IO.FS.readBinFile path.text
  let above := (path.parent.map fun p => (fs.createDirectories p).2).getD fs
  return (above.write path ⟨.data content, false⟩).2

/-- Whether a command works on files. -/
def worksOnFiles (arguments : List String) : Bool :=
  match Request.read arguments with
  | .ok ⟨.build _, _⟩ | .ok ⟨.bdistWheel _ _ _, _⟩ => true
  | _ => false

def readFiles (arguments : List String) : IO FileSystem := do
  let here := (← IO.currentDir).toString
  let place := (here.splitOn "/").filter fun name => !name.isEmpty
  let fs := ((FileSystem.mk [] place).createDirectories ⟨here⟩).2
  if !worksOnFiles arguments then return fs
  let named ← readLines (← IO.getStdin)
  named.foldlM (fun fs name => load fs ⟨name⟩) fs

/-- Writes what is new at a place. -/
def writeEntry (before : FileSystem) (e : Location × Entry) : IO Unit := do
  if before.lookup e.1 = some e.2 then return
  match e.2 with
  | .directory => IO.FS.createDirAll (FileSystem.pathOf e.1).text
  | .file f =>
    IO.FS.createDirAll (FileSystem.pathOf e.1.dropLast).text
    IO.FS.writeBinFile (FileSystem.pathOf e.1).text f.content.bytes
  | .link _ => return

end StableWheel.Program

/-- Runs the command line it is given. -/
def main (arguments : List String) : IO UInt32 := do
  let environment ← StableWheel.Program.readVariables
  let before ← StableWheel.Program.readFiles arguments
  let outcome := StableWheel.runLine (StableWheel.Program.machine environment) arguments before
  outcome.printed.forM IO.println
  outcome.told.forM IO.eprintln
  outcome.session.files.entries.forM (StableWheel.Program.writeEntry before)
  return UInt32.ofNat outcome.exit
