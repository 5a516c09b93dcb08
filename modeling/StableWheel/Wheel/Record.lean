import StableWheel.Decimal.Natural
import StableWheel.Digest.Base64Url
import StableWheel.Digest.Sha256
import StableWheel.Text.Split

/-! The list of all files in a wheel.

Each row names a file with its hash and its size; the list names itself without either.
Rows are comma-separated, and a name with a comma, a quote or a line break is quoted. -/
namespace StableWheel.Record

/-- The hash of a file, as it stands in a row. -/
def hash (content : ByteArray) : String :=
  "sha256=" ++ String.ofList (Digest.Base64Url.encode (Digest.Sha256.digest content))

/-- A file in the list. -/
structure Row where
  name : String
  hash : String
  size : String
  deriving Repr, DecidableEq

/-- The row of a file. -/
def Row.ofFile (name : String) (content : ByteArray) : Row :=
  ⟨name, Record.hash content, Decimal.natural content.size⟩

/-- The row of the list itself. -/
def Row.ofList (name : String) : Row := ⟨name, "", ""⟩

/-! ### Written form -/

/-- The characters for which a field is quoted. -/
def isSpecial (c : Char) : Bool := c == ',' || c == '"' || c == '\n'

/-- A field; inside quotes a quote is written twice. -/
def field (s : String) : String :=
  if s.toList.any isSpecial then
    String.ofList
      (['"'] ++ s.toList.flatMap (fun c => if c == '"' then [c, c] else [c]) ++ ['"'])
  else s

def Row.text (r : Row) : String := field r.name ++ "," ++ r.hash ++ "," ++ r.size

/-- Rows, one a line. -/
def text (rows : List Row) : String := Text.join "\n" (rows.map Row.text) ++ "\n"

end StableWheel.Record
