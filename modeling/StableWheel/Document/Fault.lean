import StableWheel.Decimal.Natural
import StableWheel.Text.Quoted

/-! What can be wrong with a document, and the words for it.

A document that is not well formed has no message here: it is only known to be
unreadable. Every other fault says what was found and what was wanted. -/
namespace StableWheel.Document

/-- A value that was found where another was wanted. -/
inductive Found where
  | integer (n : Int)
  | wide (n : Int)
  | floating (text : String)
  | boolean (b : Bool)
  | text (s : String)
  | null
  | sequence
  | map
  deriving Repr, DecidableEq

/-- What a reader wants. -/
inductive Wanted where
  | text
  | path
  | sequence
  | map
  | octet
  | anything
  | record (name : String)
  deriving Repr, DecidableEq

/-- Why a document says nothing usable. -/
inductive Fault where
  /-- Not well formed, or a value that stands for nothing. -/
  | unreadable
  | wrongKind (found : Found) (wanted : Wanted)
  | outOfRange (found : Found) (wanted : Wanted)
  /-- Too short a sequence for a record: the position that is empty, and how many the
  record has. -/
  | tooShort (position : Nat) (record : String) (size : Nat)
  | missing (field : String)
  | repeated (field : String)
  deriving Repr, DecidableEq

/-- A number with its sign. -/
def signed (n : Int) : String :=
  if n < 0 then "-" ++ Decimal.natural n.natAbs else Decimal.natural n.natAbs

/-- The kind of wide whole numbers that a number belongs to. -/
def wideKind (n : Int) : String := if n < Int.pow 2 127 then "i128" else "u128"

def Found.message : Found → String
  | integer n => "integer `" ++ signed n ++ "`"
  | wide n => "integer `" ++ signed n ++ "` as " ++ wideKind n
  | floating t => "floating point `" ++ t ++ "`"
  | boolean b => "boolean `" ++ (if b then "true" else "false") ++ "`"
  | text s => "string " ++ Text.Quoted.quote s
  | null => "null"
  | sequence => "sequence"
  | map => "map"

def Wanted.message : Wanted → String
  | text => "a string"
  | path => "path string"
  | sequence => "a sequence"
  | map => "a map"
  | octet => "u8"
  | anything => "any value"
  | record name => "struct " ++ name

/-- The words for a fault, if it has any. -/
def Fault.message? : Fault → Option String
  | unreadable => none
  | wrongKind f w => some ("invalid type: " ++ f.message ++ ", expected " ++ w.message)
  | outOfRange f w => some ("invalid value: " ++ f.message ++ ", expected " ++ w.message)
  | tooShort n record size =>
    some ("invalid length " ++ Decimal.natural n ++ ", expected struct " ++ record ++ " with "
      ++ Decimal.natural size ++ " elements")
  | missing field => some ("missing field `" ++ field ++ "`")
  | repeated field => some ("duplicate field `" ++ field ++ "`")

end StableWheel.Document
