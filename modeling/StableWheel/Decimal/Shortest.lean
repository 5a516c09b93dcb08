/-! The fewest decimal digits that still name one double.

A double is a multiple `m` of a power of two, and every real number between the two
midpoints around it reads back as that double. `shortest` looks for the first decimal
grid, coarsest first, that has a point in this interval; of two such points it takes
the nearer one. Which of two equally near ones it takes is a choice that comes with the
form of the text. All of it is exact arithmetic on natural numbers. -/
namespace StableWheel.Decimal

/-- A positive decimal number: `digits · 10 ^ exponent`. -/
structure Scaled where
  digits : Nat
  exponent : Int
  deriving Repr, DecidableEq

/-- A positive rational number with the interval of numbers that round to it. -/
structure Span where
  low : Nat
  value : Nat
  high : Nat
  denominator : Nat
  /-- Whether the ends belong to the interval. -/
  closed : Bool
  deriving Repr, DecidableEq

/-- The span of `m · 2 ^ q`. Below a power of two the doubles lie twice as dense, so
the lower midpoint is nearer there. -/
def Span.ofBinary (m : Nat) (q : Int) (powerOfTwo : Bool) : Span :=
  let up := Nat.pow 2 (q - 2).toNat
  let down := Nat.pow 2 (2 - q).toNat
  { low := (4 * m - if powerOfTwo then 1 else 2) * up
    value := 4 * m * up
    high := (4 * m + 2) * up
    denominator := down
    closed := m % 2 = 0 }

/-- How many decimal digits a positive number has. -/
def digitCount (n : Nat) : Nat := (Nat.toDigits 10 n).length

/-- The power of ten of the leading digit. -/
def Span.leading (s : Span) : Int :=
  if s.denominator ≤ s.value then (digitCount (s.value / s.denominator) : Int) - 1
  else -(digitCount ((s.denominator - 1) / s.value) : Int)

/-- A fraction of natural numbers times a power of ten, as a fraction. -/
def timesTen (numerator denominator : Nat) (power : Int) : Nat × Nat :=
  (numerator * Nat.pow 10 power.toNat, denominator * Nat.pow 10 (-power).toNat)

/-- Whether `n · 10 ^ power` lies in the interval. -/
def Span.holds (s : Span) (n : Nat) (power : Int) : Bool :=
  let (top, bottom) := timesTen n 1 power
  let point := top * s.denominator
  if s.closed then s.low * bottom ≤ point && point ≤ s.high * bottom
  else s.low * bottom < point && point < s.high * bottom

/-- Which of two equally near numbers is taken. -/
inductive Tie where
  | even
  | up
  deriving Repr, DecidableEq

/-- Whether of two equally near neighbours the lower one is taken. -/
def Tie.takesLower : Tie → Nat → Bool
  | even, below => below % 2 = 0
  | up, _ => false

/-- The point of the grid of step `10 ^ power` that stands for the interval, if one does. -/
def Span.onGrid (s : Span) (tie : Tie) (power : Int) : Option Nat :=
  let (top, bottom) := timesTen s.value s.denominator (-power)
  let below := top / bottom
  let twice := 2 * (top % bottom)
  let nearer :=
    if twice < bottom then below
    else if bottom < twice then below + 1
    else if tie.takesLower below then below else below + 1
  let other := if nearer = below then below + 1 else below
  if s.holds nearer power then some nearer
  else if s.holds other power then some other
  else none

/-- Trailing zeros moved into the exponent. -/
def Scaled.strip : Nat → Scaled → Scaled
  | 0, d => d
  | fuel + 1, d =>
    if d.digits != 0 && d.digits % 10 = 0 then strip fuel ⟨d.digits / 10, d.exponent + 1⟩ else d

/-- The shortest decimal number in the interval. Seventeen digits always suffice. -/
def Span.shortest (s : Span) (tie : Tie) : Scaled :=
  let grids := (List.range 17).map fun (n : Nat) => s.leading - (n : Int)
  match grids.findSome? fun power => (s.onGrid tie power).map fun n => Scaled.mk n power with
  | some d => Scaled.strip 20 d
  | none => ⟨0, 0⟩

/-! ### Doubles as text -/

/-- From which to which power of ten of the leading digit a number is written without
an exponent, and what becomes of a tie. -/
structure Layout where
  plainFrom : Option Int
  plainTo : Option Int
  tie : Tie
  deriving Repr, DecidableEq

/-- Never an exponent, however long the text becomes; ties go up. -/
def Layout.plain : Layout := ⟨none, none, .up⟩

/-- Sixteen digits before the point and five zeros after it are the most that are
written out; ties go to the even digit. -/
def Layout.compact : Layout := ⟨some (-5), some 15, .even⟩

def Layout.isPlain (l : Layout) (leading : Int) : Bool :=
  l.plainFrom.all (· ≤ leading) && l.plainTo.all (leading ≤ ·)

/-- A positive number. Whole numbers written without an exponent end in a zero after
the point. -/
def Scaled.text (d : Scaled) (l : Layout) : List Char :=
  let digits := Nat.toDigits 10 d.digits
  let leading := d.exponent + digits.length - 1
  if l.isPlain leading then
    if 0 ≤ d.exponent then digits ++ List.replicate d.exponent.toNat '0' ++ ['.', '0']
    else if 0 ≤ leading then
      let whole := (leading + 1).toNat
      digits.take whole ++ ['.'] ++ digits.drop whole
    else ['0', '.'] ++ List.replicate (-leading - 1).toNat '0' ++ digits
  else
    let sign := if 0 ≤ leading then '+' else '-'
    digits.take 1 ++ (if digits.length = 1 then [] else ['.'] ++ digits.drop 1)
      ++ ['e', sign] ++ Nat.toDigits 10 leading.natAbs

/-- The text of any double. -/
def text (l : Layout) (x : Float) : String :=
  let bits : Nat := x.toBits.toNat
  let negative := bits / Nat.pow 2 63 = 1
  let field : Nat := bits / Nat.pow 2 52 % Nat.pow 2 11
  let fraction : Nat := bits % Nat.pow 2 52
  let magnitude :=
    if field = 2047 then if fraction = 0 then ['i', 'n', 'f'] else ['N', 'a', 'N']
    else if field = 0 then
      if fraction = 0 then ['0', '.', '0']
      else ((Span.ofBinary fraction (-1074) false).shortest l.tie).text l
    else
      let m := Nat.pow 2 52 + fraction
      let span := Span.ofBinary m ((field : Int) - 1075) (fraction = 0 && 1 < field)
      (span.shortest l.tie).text l
  String.ofList (if negative && magnitude != ['N', 'a', 'N'] then '-' :: magnitude else magnitude)

end StableWheel.Decimal
