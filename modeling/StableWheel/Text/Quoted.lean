import StableWheel.Text.Printable

/-! Texts inside double quotes, as messages quote what they found.

A quote and a backslash get a backslash, the usual controls their letter, and every
other character that does not print its code point in hexadecimal. -/
namespace StableWheel.Text.Quoted

/-- The digits of a number in base sixteen, most significant first, none in front. -/
def hexDigits (n : Nat) : List Char := Nat.toDigits 16 n

/-- The written form of one character. -/
def escape (c : Char) : List Char :=
  if c == '"' then ['\\', '"']
  else if c == '\\' then ['\\', '\\']
  else if c == '\n' then ['\\', 'n']
  else if c == '\r' then ['\\', 'r']
  else if c == '\t' then ['\\', 't']
  else if c == '\x00' then ['\\', '0']
  else if isPrintable c then [c]
  else ['\\', 'u', '\x7b'] ++ hexDigits c.toNat ++ ['\x7d']

/-- The text inside quotes. -/
def quote (s : String) : String :=
  String.ofList (['"'] ++ s.toList.flatMap escape ++ ['"'])

end StableWheel.Text.Quoted
