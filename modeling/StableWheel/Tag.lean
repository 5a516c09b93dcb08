import StableWheel.Interpreter.Report

/-! Wheel tags: which interpreter, binary interface and platform a wheel fits.

A tag is three parts without dashes, written with dashes between them. The default tag of
an interpreter names exactly that interpreter; `stabilised` turns the tag of the reference
implementation into the one that every version from the minimum on accepts, and leaves
every other tag alone. -/
namespace StableWheel

/-- What a wheel fits. -/
structure Tag where
  interpreter : String
  abi : String
  platform : String
  deriving Repr, DecidableEq

namespace Tag

/-- The binary interface part of wheels that use the stable interface. -/
def stableAbi : String := "abi3"

/-- The tag of a wheel without compiled modules. -/
def pure : Tag := ⟨"py3", "none", "any"⟩

/-- The three parts with dashes between them. -/
def text (t : Tag) : String := t.interpreter ++ "-" ++ t.abi ++ "-" ++ t.platform

/-! ### Reading -/

/-- Three parts, none of them empty, the last one without a dash. -/
def parse? (s : String) : Option Tag :=
  match Text.cutThree '-' (Text.trimmed s.toList) with
  | [interpreter, abi, platform] =>
    if interpreter ≠ [] ∧ abi ≠ [] ∧ platform ≠ [] ∧ '-' ∉ platform then
      some ⟨String.ofList interpreter, String.ofList abi, String.ofList platform⟩
    else none
  | _ => none

/-- A text that is no tag. -/
structure Malformed where
  text : String
  deriving Repr, DecidableEq

def Malformed.message (m : Malformed) : String :=
  "malformed wheel tag `" ++ m.text ++ "` (expected interpreter-abi-platform)"

/-- The tag a text spells. -/
def parse (s : String) : Except Malformed Tag :=
  match parse? s with
  | some t => .ok t
  | none => .error ⟨s⟩

/-! ### The default tag of an interpreter -/

/-- A platform name as it stands in a tag: dashes, dots and spaces become underscores. -/
def normalizePlatform (platform : String) : String :=
  Text.replaceIf (fun c => c == '-' || c == '.' || c == ' ') '_' (Text.trim platform)

/-- The binary interface part for an interface name: its first two pieces. -/
def abiOf (family : Family) (soabi : String) : Option String :=
  match Text.filledPieces '-' soabi with
  | first :: second :: _ =>
    if family = .cpython ∧ first = "cpython" then some ("cp" ++ second)
    else some (Text.replaceIf (· == '.') '_' (first ++ "_" ++ second))
  | _ => none

/-- The binary interface part where the interface has no usable name. -/
def abiFallback (family : Family) (version : Version) : String :=
  match family with
  | .cpython => "cp" ++ version.tagDigits
  | _ => "none"

/-- The tag that fits exactly the interpreter of a report. A platform given by hand
replaces the reported one. -/
def ofReport (r : Report) (platform : Option String) : Tag :=
  { interpreter := (r.family.marker.getD r.implementation) ++ r.version.tagDigits
    abi := (r.soabi.bind (abiOf r.family)).getD (abiFallback r.family r.version)
    platform := normalizePlatform (platform.getD r.platform) }

/-! ### The stable interface -/

/-- The interpreter part of stable wheels: the oldest version they fit. -/
def stableInterpreter (minimum : Version) : String := "cp" ++ minimum.tagDigits

/-- The tag of a wheel whose modules use the stable interface only. There is such a tag
for the reference implementation alone. -/
def stabilised (minimum : Version) (t : Tag) : Tag :=
  match Family.ofTag t.interpreter with
  | .cpython => ⟨stableInterpreter minimum, stableAbi, t.platform⟩
  | _ => t

/-- The tag of a wheel: the stable form of the default tag if anything was compiled. -/
def ofWheel (r : Option Report) (platform : Option String) : Tag :=
  match r with
  | none => pure
  | some report => stabilised Version.stableMinimum (ofReport report platform)

theorem platform_stabilised (minimum : Version) (t : Tag) :
    (t.stabilised minimum).platform = t.platform := by
  unfold stabilised
  split <;> rfl

end Tag
end StableWheel
