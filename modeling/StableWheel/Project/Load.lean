import StableWheel.Host
import StableWheel.Project.Config

/-! Finding and reading descriptions: the project's own, and the user's defaults. -/
namespace StableWheel

/-- Why a description is not there. -/
inductive ConfigError where
  | missing (path : Path)
  | unreadable (path : Path) (e : FileError)
  | malformed (path : Path) (fault : Document.Fault)
  | invalid (defect : Defect)
  deriving Repr, DecidableEq

namespace ConfigError

def message : ConfigError → String
  | missing path => "no wheelwright.toml found at " ++ path.text
  | unreadable path e => "failed to read " ++ path.text ++ ": " ++ e.message
  | malformed path fault =>
    "failed to parse " ++ path.text ++ ": "
      ++ fault.message?.getD "the document is not well formed"
  | invalid defect => "invalid configuration: " ++ defect.message

/-- What lies behind an error, in words. -/
def cause? : ConfigError → Option String
  | unreadable _ e => some e.message
  | _ => none

/-- An error in the text of a file. -/
def ofDescription (path : Path) : DescriptionError → ConfigError
  | .unreadable fault => malformed path fault
  | .invalid defect => invalid defect

end ConfigError

/-- The name of the file that describes a project. -/
def projectFile : Path := ⟨"wheelwright.toml"⟩

/-- Reads the description of the project in a directory. -/
def ProjectConfig.load (root : Path) : Task ConfigError ProjectConfig := do
  let path := root.join projectFile
  let fs ← Task.files
  if !fs.isFile path then throw (.missing path)
  let contents ← Task.ofExcept ((fs.readText path).mapError (.unreadable path))
  Task.note ("loading project config from " ++ path.text)
  Task.ofExcept ((ProjectConfig.parse contents).mapError (.ofDescription path))

/-! ### The user's defaults -/

namespace UserDefaults

/-- The directory of the user, if there is one. -/
def home (h : Host) : Option Path :=
  match (h.environment.lenient "HOME").filter fun s => !s.isEmpty with
  | some s => some ⟨s⟩
  | none => h.accountHome

/-- The directory of the user's settings for this program. -/
def directory (h : Host) : Option Path :=
  match h.environment.text? "XDG_CONFIG_HOME" with
  | some s => some ((Path.mk s).join ⟨"wheelwright"⟩)
  | none => (home h).map fun p => (p.join ⟨".config"⟩).join ⟨"wheelwright"⟩

/-- Reads the defaults in a file. -/
def read (fs : FileSystem) (path : Path) : Except ConfigError OutputDirs := do
  let contents ← (fs.readText path).mapError (.unreadable path)
  (Document.Toml.read (Document.outputDirs "UserDefaults") contents).mapError (.malformed path)

/-- The user's defaults; nothing is said if there is no file or if it is to be ignored. -/
def load (h : Host) (fs : FileSystem) : Except ConfigError OutputDirs :=
  if h.environment.ignoresDefaults then .ok .unset
  else
    match (directory h).map fun d => d.join ⟨"config.toml"⟩ with
    | some path => if fs.isFile path then read fs path else .ok .unset
    | none => .ok .unset

end UserDefaults

/-! ### Where results go -/

namespace ProjectConfig

/-- The first place that anyone names: the command line, the environment, the project, the
user. Relative places are relative to the project. -/
def resolveDir (root : Path) (given fromEnvironment fromProject fromUser : Option Path)
    (usual : Path) : Path :=
  root.join ((given.or (fromEnvironment.or (fromProject.or fromUser))).getD usual)

/-- Where the project is built. -/
def buildDir (c : ProjectConfig) (env : Environment) (root : Path) (given : Option Path)
    (defaults : OutputDirs) : Path :=
  resolveDir root given env.buildDir c.build.build defaults.build ⟨"build"⟩

/-- Where its wheels go. -/
def distDir (c : ProjectConfig) (env : Environment) (root : Path) (given : Option Path)
    (defaults : OutputDirs) : Path :=
  resolveDir root given env.distDir c.build.dist defaults.dist ⟨"dist"⟩

end ProjectConfig
end StableWheel
