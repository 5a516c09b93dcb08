import StableWheel.Path
import StableWheel.Platform
import StableWheel.Text.Utf8

/-! The variables that steer a build.

Variables hold bytes. A setting is read strictly: one that is no text, or nothing but blanks,
counts as unset. What a setting says is kept as it is, blanks around it included. What the
system or the search for a compiler needs is read leniently. -/
namespace StableWheel

/-- The variables, and the bytes that they hold. -/
abbrev Environment := String → Option ByteArray

namespace Environment

/-- What a variable says, if it is a text. -/
def text? (env : Environment) (name : String) : Option String :=
  (env name).bind Text.Utf8.strict?

/-- What a variable says, with a replacement character wherever it says nothing. -/
def lenient (env : Environment) (name : String) : Option String :=
  (env name).map Text.Utf8.lenient

/-- A variable, unless it is blank. -/
def setting (env : Environment) (name : String) : Option String :=
  (env.text? name).filter fun s => !Text.allBlank s

/-- Whether a variable says yes. -/
def switchedOn (env : Environment) (name : String) : Bool :=
  (env.text? name).any fun s => ["1", "true", "yes"].contains (s.map Char.toLower)

/-- The compiler to use. -/
def compiler (env : Environment) : Option String := env.setting "CC"

/-- More flags for the linker. -/
def linkerFlags (env : Environment) : List String :=
  ((env.setting "LDFLAGS").map Text.words).getD []

/-- The interpreter to build against. -/
def python (env : Environment) : Option String := env.setting "PYTHON"

/-- The platform part of tags. -/
def platformName (env : Environment) : Option String := env.setting "WHEELWRIGHT_PLATFORM"

/-- Where builds go. -/
def buildDir (env : Environment) : Option Path :=
  (env.setting "WHEELWRIGHT_BUILD_DIR").map Path.mk

/-- Where wheels go. -/
def distDir (env : Environment) : Option Path :=
  (env.setting "WHEELWRIGHT_DIST_DIR").map Path.mk

/-- Whether the user's defaults are left alone. -/
def ignoresDefaults (env : Environment) : Bool := env.switchedOn "WHEELWRIGHT_NO_CONFIG"

end Environment
end StableWheel
