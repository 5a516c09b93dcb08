import StableWheel.Decimal.Natural
import StableWheel.Decimal.Shortest
import StableWheel.Document.Node

/-! The lexical part of JSON.

`Token.scan` walks a text once, from left to right. A lexeme is described by its token and
by how many further characters belong to it, so the walk is structural; it ends at the
first character that starts no lexeme. A number beyond the range of doubles and a string
with half of a surrogate pair have the right form and stand for nothing. -/
namespace StableWheel.Document.Json

/-- A lexeme. A string without a value has half of a surrogate pair in it. -/
inductive Token where
  | openBracket
  | closeBracket
  | openBrace
  | closeBrace
  | comma
  | colon
  | scalar (n : Node)
  | text (value : Option String)
  /-- Nothing that may stand in a document. -/
  | bad
  deriving Repr

/-! ### Numbers -/

/-- Digits added to a significand as long as it fits into sixty-four bits, and how many
were added. -/
def gather : Nat → Nat → List Char → Nat × Nat
  | significand, taken, [] => (significand, taken)
  | significand, taken, c :: rest =>
    let next := 10 * significand + Decimal.digitValue c
    if next < Nat.pow 2 64 then gather next (taken + 1) rest else (significand, taken)

/-- The double nearest to a power of ten. -/
def powerOfTen (n : Nat) : Float := Float.ofScientific 1 false n

/-- A significand scaled by a power of ten, or nothing beyond the range of doubles.
Powers up to 308 are one multiplication or division. -/
def scaled : Nat → Float → Int → Option Float
  | 0, f, _ => some f
  | fuel + 1, f, exponent =>
    if exponent.natAbs ≤ 308 then
      if 0 ≤ exponent then
        let g := f * powerOfTen exponent.natAbs
        if g.isInf then none else some g
      else some (f / powerOfTen exponent.natAbs)
    else if f == 0.0 then some f
    else if 0 ≤ exponent then none
    else scaled fuel (f / powerOfTen 308) (exponent + 308)

/-- What a number with a fraction or an exponent stands for. -/
def floating (negative : Bool) (magnitude : Option Float) : Node :=
  match magnitude with
  | none => .unfit
  | some f => .floating (Decimal.text .compact (if negative then -f else f))

/-- The parts of a number: sign, digits before and after the point, and the exponent. -/
structure Parts where
  negative : Bool
  whole : List Char
  fraction : List Char
  exponent : Option (Bool × List Char)
  deriving Repr, DecidableEq

/-- What a number stands for. Digits beyond sixty-four bits of significand only count
for the size of the number. -/
def Parts.node (p : Parts) : Node :=
  let (whole, taken) := gather 0 0 p.whole
  let dropped := p.whole.length - taken
  if p.fraction.isEmpty && p.exponent.isNone && dropped = 0 then
    if !p.negative then .integer whole
    else if whole = 0 || Nat.pow 2 63 < whole then
      floating true (some whole.toUInt64.toFloat)
    else .integer (-whole)
  else
    let (significand, places) := gather whole 0 p.fraction
    let start : Int := (dropped : Int) - (places : Int)
    let f := significand.toUInt64.toFloat
    match p.exponent with
    | none => floating p.negative (scaled 8 f start)
    | some (down, digits) =>
      let e := Decimal.value digits
      if Nat.pow 2 31 ≤ e then
        if significand = 0 || down then floating p.negative (some 0.0) else .unfit
      else floating p.negative (scaled 8 f (if down then start - (e : Int) else start + (e : Int)))

/-- The digits at the start of a text, and the rest. -/
def spanDigits (cs : List Char) : List Char × List Char :=
  (cs.takeWhile Decimal.isDigit, cs.dropWhile Decimal.isDigit)

/-- A fraction, if a point comes next; a point without digits is refused. -/
def readFraction (cs : List Char) : Option (List Char × List Char) :=
  match cs with
  | '.' :: rest =>
    let (digits, after) := spanDigits rest
    if digits.isEmpty then none else some (digits, after)
  | _ => some ([], cs)

/-- The digits of an exponent after its sign. -/
def exponentDigits (down : Bool) (cs : List Char) :
    Option (Option (Bool × List Char) × List Char) :=
  let (digits, after) := spanDigits cs
  if digits.isEmpty then none else some (some (down, digits), after)

/-- An exponent, if one comes next; one without digits is refused. -/
def readExponent (cs : List Char) : Option (Option (Bool × List Char) × List Char) :=
  match cs with
  | e :: rest =>
    if e == 'e' || e == 'E' then
      match rest with
      | '+' :: more => exponentDigits false more
      | '-' :: more => exponentDigits true more
      | _ => exponentDigits false rest
    else some (none, cs)
  | [] => some (none, cs)

/-- The number at the start of a text, and the rest. A zero stands alone before the
point. -/
def readNumber (cs : List Char) : Option (Parts × List Char) := do
  let (negative, unsigned) := match cs with
    | '-' :: rest => (true, rest)
    | _ => (false, cs)
  let (whole, rest) := spanDigits unsigned
  if whole.isEmpty || (whole.head? == some '0' && whole.length != 1) then none
  let (fraction, rest) ← readFraction rest
  let (exponent, rest) ← readExponent rest
  return (⟨negative, whole, fraction, exponent⟩, rest)

/-! ### Strings -/

/-- The value of a hexadecimal digit. -/
def hexValue (c : Char) : Option Nat :=
  if '0' ≤ c && c ≤ '9' then some (c.toNat - 48)
  else if 'a' ≤ c && c ≤ 'f' then some (c.toNat - 87)
  else if 'A' ≤ c && c ≤ 'F' then some (c.toNat - 55)
  else none

/-- The value of four hexadecimal digits. -/
def hexFour (a b c d : Char) : Option Nat := do
  return ((← hexValue a) * 16 + (← hexValue b)) * 256 + (← hexValue c) * 16 + (← hexValue d)

/-- A character of a string, or a unit of one: escapes name units of sixteen bits. -/
inductive Piece where
  | char (c : Char)
  | unit (n : Nat)
  deriving Repr, DecidableEq

/-- The character after a backslash, if it is one of the short escapes. -/
def shortEscape (c : Char) : Option Char :=
  [('"', '"'), ('\\', '\\'), ('/', '/'), ('b', '\x08'), ('f', '\x0c'), ('n', '\n'),
    ('r', '\r'), ('t', '\t')].lookup c

/-- The pieces of a string up to its closing quote, and what follows the quote. -/
def readPieces : List Char → Option (List Piece × List Char)
  | [] => none
  | '"' :: rest => some ([], rest)
  | '\\' :: 'u' :: a :: b :: c :: d :: rest => do
    let n ← hexFour a b c d
    let (pieces, after) ← readPieces rest
    return (.unit n :: pieces, after)
  | '\\' :: e :: rest => do
    let c ← shortEscape e
    let (pieces, after) ← readPieces rest
    return (.char c :: pieces, after)
  | c :: rest => do
    if c.toNat < 0x20 || c == '\\' then none
    let (pieces, after) ← readPieces rest
    return (.char c :: pieces, after)

def isHigh (n : Nat) : Bool := 0xd800 ≤ n && n < 0xdc00
def isLow (n : Nat) : Bool := 0xdc00 ≤ n && n < 0xe000

/-- The characters that pieces stand for. Two units that form a pair are one character;
half a pair is none. -/
def charsOf : List Piece → Option (List Char)
  | [] => some []
  | .char c :: rest => (charsOf rest).map (c :: ·)
  | .unit n :: .unit m :: rest =>
    if isHigh n && isLow m then
      (charsOf rest).map (Char.ofNat (0x10000 + (n - 0xd800) * 1024 + (m - 0xdc00)) :: ·)
    else if isHigh n || isLow n then none
    else (charsOf (.unit m :: rest)).map (Char.ofNat n :: ·)
  | .unit n :: rest =>
    if isHigh n || isLow n then none else (charsOf rest).map (Char.ofNat n :: ·)

/-! ### Lexemes -/

/-- A token and how many characters of what follows its first one belong to it. -/
def counted (rest after : List Char) (t : Token) : Token × Nat :=
  (t, rest.length - after.length)

/-- The lexeme that starts with a character. -/
def lexeme (c : Char) (rest : List Char) : Token × Nat :=
  match c with
  | '[' => (.openBracket, 0)
  | ']' => (.closeBracket, 0)
  | '\x7b' => (.openBrace, 0)
  | '\x7d' => (.closeBrace, 0)
  | ',' => (.comma, 0)
  | ':' => (.colon, 0)
  | '"' =>
    match readPieces rest with
    | some (pieces, after) =>
      counted rest after (.text ((charsOf pieces).map String.ofList))
    | none => (.bad, 0)
  | 'n' => if "ull".toList.isPrefixOf rest then (.scalar .null, 3) else (.bad, 0)
  | 't' => if "rue".toList.isPrefixOf rest then (.scalar (.boolean true), 3) else (.bad, 0)
  | 'f' => if "alse".toList.isPrefixOf rest then (.scalar (.boolean false), 4) else (.bad, 0)
  | _ =>
    match readNumber (c :: rest) with
    | some (parts, after) => counted rest after (.scalar parts.node)
    | none => (.bad, 0)

def isSpace (c : Char) : Bool := c == ' ' || c == '\n' || c == '\t' || c == '\r'

/-- The lexemes of a text, the first characters being part of one already read. -/
def scanAfter : Nat → List Char → List Token
  | _, [] => []
  | n + 1, _ :: rest => scanAfter n rest
  | 0, c :: rest =>
    if isSpace c then scanAfter 0 rest
    else
      match lexeme c rest with
      | (.bad, _) => [.bad]
      | (t, n) => t :: scanAfter n rest

/-- The lexemes of a text, up to the first thing that is none. -/
def Token.scan (cs : List Char) : List Token := scanAfter 0 cs

end StableWheel.Document.Json
