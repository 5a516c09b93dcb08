import StableWheel.Tag

/-! What a wheel says about itself: its file name and the two files that describe it. -/
namespace StableWheel

/-- What is known of a wheel before its files are. -/
structure Wheel where
  name : String
  version : String
  tag : Tag
  summary : Option String
  requiresPython : Option String
  deriving Repr, DecidableEq

namespace Wheel

/-- The version of the wheel format. -/
def formatVersion : String := "1.0"

/-- The version of the metadata format. -/
def metadataVersion : String := "2.1"

/-- The name and version of the program that makes wheels. -/
def generator : String := "wheelwright 0.1.0"

/-! ### Names -/

/-- The name as it stands in file names. -/
def distName (w : Wheel) : String := Text.replaceIf (· == '-') '_' w.name

/-- The name and version that file names start with. -/
def stem (w : Wheel) : String := w.distName ++ "-" ++ w.version

def fileName (w : Wheel) : String := w.stem ++ "-" ++ w.tag.text ++ ".whl"

/-- The directory of the files that describe the wheel. -/
def infoDir (w : Wheel) : String := w.stem ++ ".dist-info"

/-! ### Contents -/

/-- Only wheels without compiled modules are pure. -/
def isPure (w : Wheel) : Bool := w.tag = Tag.pure

/-- What installers need to know. -/
def wheelFile (w : Wheel) : String :=
  "Wheel-Version: " ++ formatVersion ++ "\n"
    ++ "Generator: " ++ generator ++ "\n"
    ++ "Root-Is-Purelib: " ++ (if w.isPure then "true" else "false") ++ "\n"
    ++ "Tag: " ++ w.tag.text ++ "\n"

/-- The fields of the metadata, in order; the last two only if they are given. -/
def metadataFields (w : Wheel) : List (String × String) :=
  [("Metadata-Version", metadataVersion), ("Name", w.name), ("Version", w.version)]
    ++ w.summary.toList.map (fun s => ("Summary", s))
    ++ w.requiresPython.toList.map (fun s => ("Requires-Python", s))

/-- The metadata, one field a line. -/
def metadata (w : Wheel) : String :=
  String.join (w.metadataFields.map fun f => f.1 ++ ": " ++ f.2 ++ "\n")

end Wheel
end StableWheel
