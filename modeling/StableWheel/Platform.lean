import StableWheel.Text.Blank
import StableWheel.Text.Split

/-! The two families of platforms a build tells apart.

Windows compilers take no dialect flag and produce modules with a suffix of their own;
every other system is treated alike, known or not. -/
namespace StableWheel

/-- A platform, as far as compiling a module depends on it. -/
inductive Platform where
  | windows
  | other
  deriving Repr, DecidableEq

namespace Platform

/-- ASCII letters in lower case, blanks on either side removed. -/
def folded (s : String) : String := (Text.trim s).map Char.toLower

/-- The family of a system by its name. -/
def ofSystem (name : String) : Platform :=
  if folded name ∈ ["windows", "win32", "win64"] then windows else other

/-- The flags that ask for the strict C dialect. -/
def dialectFlags : Platform → List String
  | windows => []
  | other => ["-std=c99"]

/-- The suffix of a module that binds to the stable interface only. -/
def stableSuffix : Platform → String
  | windows => ".pyd"
  | other => ".abi3.so"

/-- The suffix of a module bound to one interpreter version. -/
def plainSuffix : Platform → String
  | windows => ".pyd"
  | other => ".so"

def name : Platform → String
  | windows => "windows"
  | other => "other"

end Platform

/-- The platform part of a tag for a system and a processor, for use where no
interpreter says better. -/
def fallbackPlatformTag (system processor : String) : String :=
  if system = "windows" ∧ processor = "x86_64" then "win_amd64"
  else if system = "windows" ∧ processor = "x86" then "win32"
  else if system = "windows" ∧ processor = "aarch64" then "win_arm64"
  else if system = "macos" ∧ processor = "aarch64" then "macosx_11_0_arm64"
  else if system = "macos" then "macosx_10_9_" ++ processor
  else system ++ "_" ++ processor

end StableWheel
