/-! Natural numbers as decimal digits, written and read. -/
namespace StableWheel.Decimal

/-- The digits of a number, none in front that could be left out. -/
def digits (n : Nat) : List Char := Nat.toDigits 10 n

/-- The digits of a number. -/
def natural (n : Nat) : String := String.ofList (digits n)

/-- Only the ten ASCII digits count. -/
def isDigit (c : Char) : Bool := '0' ≤ c && c ≤ '9'

/-- The value of a digit. -/
def digitValue (c : Char) : Nat := c.toNat - 48

/-- The number that a run of digits stands for, whatever zeros it starts with. -/
def value (cs : List Char) : Nat := cs.foldl (fun n c => 10 * n + digitValue c) 0

/-- The number, if the characters are digits and there is at least one. -/
def value? (cs : List Char) : Option Nat :=
  if cs ≠ [] ∧ cs.all isDigit then some (value cs) else none

/-- The number, if it fits into eight bits. -/
def octet? (cs : List Char) : Option UInt8 :=
  (value? cs).bind fun n => if n < 256 then some (UInt8.ofNat n) else none

end StableWheel.Decimal
