import StableWheel.Extension
import StableWheel.FileSystem.Resolve

/-! Looking for sources before any compiler runs.

Modules are looked at in order, and of each one first whether it makes sense and then whether
its sources are there, in order. -/
namespace StableWheel

/-- Why modules cannot be compiled as they are. -/
inductive SourceError where
  | badSpec (e : SpecError)
  | missing (module : String) (path : Path)
  deriving Repr, DecidableEq

def SourceError.message : SourceError → String
  | badSpec e => e.message
  | missing module path =>
    "source file for extension `" ++ module ++ "` not found: " ++ path.text

/-- The first source of a module that is not a file. -/
def missingSource (fs : FileSystem) (root : Path) (spec : ExtensionSpec) : Option Path :=
  (spec.sources.map root.join).find? fun p => !fs.isFile p

/-- What is wrong with one module, if anything is. -/
def verifySpec (fs : FileSystem) (root : Path) (spec : ExtensionSpec) : Except SourceError Unit :=
  match spec.validate with
  | .error e => .error (.badSpec e)
  | .ok _ =>
    match missingSource fs root spec with
    | some p => .error (.missing spec.fullName p)
    | none => .ok ()

/-- What is wrong with the first module with which something is. -/
def verifySources (fs : FileSystem) (root : Path) : List ExtensionSpec → Except SourceError Unit
  | [] => .ok ()
  | spec :: rest =>
    match verifySpec fs root spec with
    | .error e => .error e
    | .ok _ => verifySources fs root rest

end StableWheel
