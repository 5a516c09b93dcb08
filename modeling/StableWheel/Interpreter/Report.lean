import StableWheel.Document.Json.Text
import StableWheel.Interpreter.Family
import StableWheel.Interpreter.Version

/-! What an interpreter reports about itself.

The report is one JSON record. It names the implementation, its version, the directory
of its headers, the platform it was built for and, where there is one, the name of its
binary interface. -/
namespace StableWheel

/-- The facts a build needs of an interpreter. -/
structure Report where
  implementation : String
  major : UInt8
  minor : UInt8
  /-- The name of the binary interface, which Windows builds do not give. -/
  soabi : Option String
  /-- Where the headers are. -/
  includeDir : Path
  platform : String
  extSuffix : Option String
  basePrefix : Path
  deriving Repr, DecidableEq

namespace Report
open Document

def version (r : Report) : Version := ⟨r.major, r.minor⟩

def family (r : Report) : Family := Family.ofImplementation r.implementation

/-- Where the import library is that Windows linkers need. -/
def libsDir (r : Report) : Path := r.basePrefix.join ⟨"libs"⟩

/-- The fields of the record, in the order in which a sequence gives them. -/
def fields : List Field :=
  [ .of "implementation" Reader.text, .of "major" Reader.octet, .of "minor" Reader.octet,
    .of "soabi" (Reader.nullable Reader.text), .of "include_dir" Reader.path,
    .of "platform" Reader.text, .of "ext_suffix" (Reader.nullable Reader.text),
    .of "base_prefix" Reader.path ]

/-- A report from its fields. -/
def ofGiven (g : Given) : Except Fault Report := do
  return {
    implementation := ← g.required "implementation" Reader.text
    major := ← g.required "major" Reader.octet
    minor := ← g.required "minor" Reader.octet
    soabi := ← g.defaulted "soabi" (Reader.nullable Reader.text) none
    includeDir := ← g.required "include_dir" Reader.path
    platform := ← g.required "platform" Reader.text
    extSuffix := ← g.defaulted "ext_suffix" (Reader.nullable Reader.text) none
    basePrefix := ← g.required "base_prefix" Reader.path }

/-- Reads a report from the text an interpreter printed. -/
def parse (s : String) : Except Fault Report :=
  Json.read (Reader.record Json.dialect "InterpreterInfo" fields ofGiven) s

end Report
end StableWheel
