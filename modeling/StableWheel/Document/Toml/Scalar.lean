import StableWheel.Document.Json.Token

/-! What an atom stands for: a truth value, a number or a moment.

A number has no zeros in front and underscores only between digits. A whole number may
turn out to stand for nothing: it is too large, or what stands around its underscores are
digits of another base. A moment becomes a table with one reserved name, which no written
name can be, and the moment's text. -/
namespace StableWheel.Document.Toml

/-! ### Numbers -/

/-- The digits of a numeral whose underscores stand between digits. -/
def numeral? (test : Char → Bool) (cs : List Char) : Option (List Char) :=
  let runs := cs.splitOn '_'
  if runs.all fun run => !run.isEmpty && run.all test then some runs.flatten else none

/-- The sign in front, negative or not, and the rest. -/
def splitSign : List Char → Bool × List Char
  | '-' :: rest => (true, rest)
  | '+' :: rest => (false, rest)
  | cs => (false, cs)

/-- The digits in front of a fraction or an exponent, without zeros in front. After a sign
an underscore may come first, and then zeros may follow. -/
def whole? (marked : Bool) (cs : List Char) : Option (List Char) :=
  match marked, cs with
  | true, '_' :: rest => numeral? Decimal.isDigit rest
  | _, _ => do
    let digits ← numeral? Decimal.isDigit cs
    if digits.length != 1 && digits.head? == some '0' then none else some digits

/-- The value of digits in some base. -/
def radixValue (base : Nat) (cs : List Char) : Nat :=
  cs.foldl (fun n c => base * n + (Json.hexValue c).getD 0) 0

/-- A whole number as a value. -/
def ofInt (n : Int) : Node :=
  if -Int.pow 2 63 ≤ n ∧ n < Int.pow 2 64 then .integer n
  else if -Int.pow 2 127 ≤ n ∧ n < Int.pow 2 128 then .wide n
  else .unfit

/-- A numeral in some base. Without any digits it stands for nothing. -/
def radix? (base : Nat) (cs : List Char) : Option Node :=
  if cs.isEmpty then some .unfit
  else
    (numeral? (fun c => (Json.hexValue c).any (· < base)) cs).map fun digits =>
      ofInt (radixValue base digits)

/-- Whether what stands between underscores may stand there: it starts with a digit of
some base, and ends with one unless it is the last. -/
def mayAlternate (runs : List (List Char)) : Bool :=
  let isDigit (c : Option Char) : Bool := c.any fun c => (Json.hexValue c).isSome
  (runs.all fun run => isDigit run.head?) && runs.dropLast.all fun run => isDigit run.getLast?

/-- A whole number in base ten. After a sign an underscore may come first. What follows
the first underscore need not be digits for the number to be well formed. -/
def decimal? (cs : List Char) : Option Node :=
  let (negative, unsigned) := splitSign cs
  let marked := unsigned.length < cs.length
  let value (digits : List Char) : Node :=
    let n : Int := Decimal.value digits
    ofInt (if negative then -n else n)
  match unsigned.splitOn '_' with
  | [] => none
  | [digits] =>
    if digits.isEmpty || !digits.all Decimal.isDigit then none
    else if digits.length != 1 && digits.head? == some '0' then none
    else some (value digits)
  | first :: more =>
    let isPointed (c : Char) : Bool := c == '.' || c == 'e' || c == 'E'
    if !first.all Decimal.isDigit || first.head? == some '0' || (first.isEmpty && !marked) then
      none
    else if more.any (·.any isPointed) || !mayAlternate more then none
    else
      let digits := first ++ more.flatten
      some (if digits.all Decimal.isDigit then value digits else .unfit)

/-- A whole number; one with another base has no sign. -/
def integer? (cs : List Char) : Option Node :=
  match cs with
  | '0' :: 'x' :: rest => radix? 16 rest
  | '0' :: 'o' :: rest => radix? 8 rest
  | '0' :: 'b' :: rest => radix? 2 rest
  | _ => decimal? cs

/-- A double as a value. -/
def ofFloat (f : Float) : Node := .floating (Decimal.text .plain f)

/-- Digits times a power of ten. Beyond the range of doubles it stands for nothing. -/
def scaledDigits (negative : Bool) (digits : List Char) (exponent : Int) : Node :=
  let m := Decimal.value digits
  let size : Int := (Decimal.digits m).length + exponent
  let signed (f : Float) : Node := ofFloat (if negative then -f else f)
  if m = 0 || size < -400 then signed 0.0
  else if 400 < size then .unfit
  else
    let f := Float.ofScientific m (exponent < 0) exponent.natAbs
    if f.isInf then .unfit else signed f

/-- An exponent with its sign. -/
def exponent? (cs : List Char) : Option Int :=
  let (negative, rest) := splitSign cs
  (numeral? Decimal.isDigit rest).map fun digits =>
    let n : Int := Decimal.value digits
    if negative then -n else n

/-- A number with a fraction, an exponent or both. -/
def float? (cs : List Char) : Option Node :=
  let (negative, unsigned) := splitSign cs
  if unsigned = "inf".toList then
    some (.floating (if negative then "-inf" else "inf"))
  else if unsigned = "nan".toList then some (.floating "NaN")
  else
    let isMark (c : Char) : Bool := c == 'e' || c == 'E'
    let mantissa := unsigned.takeWhile (!isMark ·)
    let exponent := (unsigned.dropWhile (!isMark ·)).drop 1
    let marked := mantissa.length < unsigned.length
    let whole := mantissa.takeWhile (· != '.')
    let fraction := (mantissa.dropWhile (· != '.')).drop 1
    let pointed := whole.length < mantissa.length
    if !marked && !pointed then none
    else do
      let digits ← whole? (unsigned.length < cs.length) whole
      let places ← if pointed then numeral? Decimal.isDigit fraction else some []
      let power ← if marked then exponent? exponent else some 0
      some (scaledDigits negative (digits ++ places) (power - (places.length : Int)))

/-! ### Moments -/

/-- Two digits as a number. -/
def two? : List Char → Option Nat
  | [a, b] => Decimal.value? [a, b]
  | _ => none

/-- How many days a month has. -/
def monthLength (year month : Nat) : Nat :=
  if month = 2 then
    if year % 4 = 0 && (year % 100 != 0 || year % 400 = 0) then 29 else 28
  else if month ∈ [4, 6, 9, 11] then 30
  else 31

/-- Whether three numbers are a day of the calendar. -/
def onCalendar (year month day : Nat) : Bool :=
  1 ≤ month && month ≤ 12 && 1 ≤ day && day ≤ monthLength year month

/-- Whether a text is a day of the calendar. -/
def isDay (cs : List Char) : Bool :=
  match cs.splitOn '-' with
  | [y, m, d] =>
    y.length = 4 && ((do return onCalendar (← Decimal.value? y) (← two? m) (← two? d)).getD false)
  | _ => false

/-- A fraction of a second, with its point, as it is written: at most nine digits, no zeros
at the end, and nothing at all for a whole second. -/
def fractionText (digits : List Char) : List Char :=
  let kept := ((digits.take 9).reverse.dropWhile (· == '0')).reverse
  if kept.isEmpty then [] else '.' :: kept

/-- A time of day, as it is written, and what follows it. Seconds may be left out of the
text and are written all the same. -/
def clock? (cs : List Char) : Option (List Char × List Char) :=
  match cs with
  | a :: b :: ':' :: c :: d :: rest => do
    let hour ← two? [a, b]
    let minute ← two? [c, d]
    if 23 < hour || 59 < minute then none
    let start := [a, b, ':', c, d]
    match rest with
    | ':' :: e :: f :: more => do
      let second ← two? [e, f]
      if 60 < second then none
      let start := start ++ [':', e, f]
      match more with
      | '.' :: fraction =>
        let digits := fraction.takeWhile Decimal.isDigit
        if digits.isEmpty then none
        else
          some (start ++ fractionText digits, fraction.dropWhile Decimal.isDigit)
      | _ => some (start, more)
    | ':' :: _ => none
    | _ => some (start ++ [':', '0', '0'], rest)
  | _ => none

/-- A difference to universal time, as it is written. -/
def offset? (cs : List Char) : Option (List Char) :=
  match cs with
  | [] => some []
  | ['z'] | ['Z'] => some ['Z']
  | [s, a, b, ':', c, d] => do
    if s != '+' && s != '-' then none
    let hours ← two? [a, b]
    let minutes ← two? [c, d]
    if 23 < hours || 59 < minutes then none
    let pad (n : Nat) : List Char := if n < 10 then '0' :: Decimal.digits n else Decimal.digits n
    let sign := if hours + minutes = 0 then '+' else s
    some (sign :: pad hours ++ ':' :: pad minutes)
  | _ => none

/-- The name under which a moment is stored. -/
def momentKey : String := "$__toml_private_datetime"

/-- A moment as a value. -/
def ofMoment (cs : List Char) : Node := .table [(momentKey, .text (String.ofList cs))] true

/-- A day, a time of day, or both with or without a difference to universal time. -/
def moment? (cs : List Char) : Option Node :=
  match clock? cs with
  | some (time, []) => some (ofMoment time)
  | _ =>
    let day := cs.take 10
    if !isDay day then none
    else
      match cs.drop 10 with
      | [] => some (ofMoment day)
      | c :: rest =>
        if c == 'T' || c == 't' || c == ' ' then do
          let (time, after) ← clock? rest
          let offset ← offset? after
          some (ofMoment (day ++ 'T' :: time ++ offset))
        else none

/-! ### Any atom -/

/-- The value of an atom. -/
def scalar? (cs : List Char) : Option Node :=
  if cs = "true".toList then some (.boolean true)
  else if cs = "false".toList then some (.boolean false)
  else (moment? cs).or ((integer? cs).or (float? cs))

end StableWheel.Document.Toml
