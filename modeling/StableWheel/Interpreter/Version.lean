import StableWheel.Decimal.Natural
import StableWheel.Text.Blank
import StableWheel.Text.Split

/-! Versions of the language: a major and a minor number.

Both numbers fit into eight bits. A version is read from the text an interpreter
gives itself, so whatever follows the digits of the minor number is ignored. -/
namespace StableWheel

/-- A version such as 3.12. -/
structure Version where
  major : UInt8
  minor : UInt8
  deriving Repr, DecidableEq

namespace Version

/-- The oldest version that a module for the stable interface runs on. It decides both
the value of the limited API macro and the wheel tag. -/
def stableMinimum : Version := ⟨3, 8⟩

/-! ### Written forms -/

def hexDigit (n : Nat) : Char := if n < 10 then Char.ofNat (48 + n) else Char.ofNat (55 + n)

/-- Two hexadecimal digits. -/
def hexPair (n : UInt8) : List Char := [hexDigit (n.toNat / 16), hexDigit (n.toNat % 16)]

/-- The value of the limited API macro: major and minor in the two high bytes. -/
def hex (v : Version) : String :=
  String.ofList (['0', 'x'] ++ hexPair v.major ++ hexPair v.minor ++ ['0', '0', '0', '0'])

/-- The digits used in interpreter tags. -/
def tagDigits (v : Version) : String :=
  Decimal.natural v.major.toNat ++ Decimal.natural v.minor.toNat

/-- The usual text. -/
def text (v : Version) : String :=
  Decimal.natural v.major.toNat ++ "." ++ Decimal.natural v.minor.toNat

/-! ### Reading -/

/-- A number that may carry a plus sign. -/
def readMajor (cs : List Char) : Option UInt8 :=
  match cs with
  | '+' :: rest => Decimal.octet? rest
  | _ => Decimal.octet? cs

/-- The number a piece starts with. -/
def readMinor (cs : List Char) : Option UInt8 := Decimal.octet? (cs.takeWhile Decimal.isDigit)

/-- The version a text starts with; blanks around it do not matter. -/
def parse? (s : String) : Option Version :=
  match (Text.trimmed s.toList).splitOn '.' with
  | major :: minor :: _ => do return ⟨← readMajor major, ← readMinor minor⟩
  | _ => none

/-! ### Order -/

/-- Compared by number, major before minor. -/
def le (v w : Version) : Bool := v.major < w.major || (v.major = w.major && v.minor ≤ w.minor)

end Version
end StableWheel
