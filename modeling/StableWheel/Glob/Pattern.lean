import StableWheel.Text.Split

/-! Patterns for file names.

A question mark stands for any character, a star for any run of characters, and brackets for
one character of a class. Two stars stand for any number of directories and may only be a
whole component. In brackets every character stands for itself, which is how `escape` makes
a pattern that matches a given text only. -/
namespace StableWheel.Glob

/-- A class of characters as ranges with both ends. -/
abbrev CharClass := List (Char × Char)

def CharClass.holds (k : CharClass) (c : Char) : Bool := k.any fun r => r.1 ≤ c && c ≤ r.2

/-- An element of a pattern. -/
inductive Token where
  | char (c : Char)
  | any
  | run
  /-- Any number of directories. -/
  | directories
  | among (k : CharClass)
  | except (k : CharClass)
  deriving Repr, DecidableEq

/-- Why a text is no pattern. -/
inductive Reason where
  | tooManyStars
  | partialComponent
  | badClass
  deriving Repr, DecidableEq

def Reason.message : Reason → String
  | tooManyStars => "wildcards are either regular `*` or recursive `**`"
  | partialComponent => "recursive wildcards must form a single path component"
  | badClass => "invalid range pattern"

/-- Where a text stops being a pattern, and why. -/
structure PatternError where
  position : Nat
  reason : Reason
  deriving Repr, DecidableEq

/-! ### Reading patterns -/

/-- The ranges of a class: single characters, and pairs with a dash between them. -/
def rangesOf : List Char → CharClass
  | a :: '-' :: b :: rest => (a, b) :: rangesOf rest
  | a :: rest => (a, a) :: rangesOf rest
  | [] => []

/-- The characters of a class up to its closing bracket. The first one belongs to the class
even if it is a bracket. -/
def classChars : List Char → Option (List Char)
  | [] => none
  | first :: rest =>
    if rest.contains ']' then some (first :: rest.takeWhile (· != ']')) else none

/-- The class behind an opening bracket, and how many characters it takes. -/
def readClass (rest : List Char) : Option (Token × Nat) :=
  match rest with
  | '!' :: more => (classChars more).map fun cs => (.except (rangesOf cs), cs.length + 2)
  | _ => (classChars rest).map fun cs => (.among (rangesOf cs), cs.length + 1)

/-- The element that starts with a character, and how many more characters it takes. -/
def element (position : Nat) (before : Option Char) (c : Char) (rest : List Char) :
    Except PatternError (Token × Nat) :=
  if c == '?' then .ok (.any, 0)
  else if c == '[' then
    match readClass rest with
    | some found => .ok found
    | none => .error ⟨position, .badClass⟩
  else if c == '*' then
    match (rest.takeWhile (· == '*')).length with
    | 0 => .ok (.run, 0)
    | 1 =>
      if before.all (· == '/') then
        match rest.drop 1 with
        | [] => .ok (.directories, 1)
        | next :: _ =>
          if next == '/' then .ok (.directories, 2)
          else .error ⟨position + 2, .partialComponent⟩
      else .error ⟨position - 1, .partialComponent⟩
    | _ => .error ⟨position + 2, .tooManyStars⟩
  else .ok (.char c, 0)

/-- The elements of a text from a position on, the first characters being part of an
element already read. -/
def compileFrom : Nat → Nat → Option Char → List Char → Except PatternError (List Token)
  | _, _, _, [] => .ok []
  | skip + 1, position, _, c :: rest => compileFrom skip (position + 1) (some c) rest
  | 0, position, before, c :: rest => do
    let (t, skip) ← element position before c rest
    return t :: (← compileFrom skip (position + 1) (some c) rest)

/-- The elements of a pattern. -/
def compile (cs : List Char) : Except PatternError (List Token) := compileFrom 0 0 none cs

/-- The characters that mean something in a pattern. -/
def isSpecial (c : Char) : Bool := c == '?' || c == '*' || c == '[' || c == ']'

/-- A pattern that matches only the given text. -/
def escape (cs : List Char) : List Char :=
  cs.flatMap fun c => if isSpecial c then ['[', c, ']'] else [c]

/-! ### Matching -/

/-- Whether the test holds for some end of a list. -/
def someEnd (test : List Char → Bool) : List Char → Bool
  | [] => test []
  | c :: rest => test (c :: rest) || someEnd test rest

/-- Whether elements match a whole name. -/
def fits : List Token → List Char → Bool
  | [], cs => cs.isEmpty
  | .run :: rest, cs => someEnd (fits rest) cs
  | .char x :: rest, c :: cs => x == c && fits rest cs
  | .any :: rest, _ :: cs => fits rest cs
  | .among k :: rest, c :: cs => k.holds c && fits rest cs
  | .except k :: rest, c :: cs => !(k.holds c) && fits rest cs
  | _ :: _, _ => false

/-- The text that elements stand for, if they are nothing but characters. -/
def literal? : List Token → Option (List Char)
  | [] => some []
  | .char c :: rest => (literal? rest).map (c :: ·)
  | _ => none

/-- Whether a component stands for any number of directories. -/
def isDirectories (component : List Token) : Bool := component.contains .directories

end StableWheel.Glob
