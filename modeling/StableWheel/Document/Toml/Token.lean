import StableWheel.Document.Json.Token

/-! The lexical part of TOML.

`Token.scan` walks a text once, from left to right, and refuses it at the first character
that starts no lexeme. A run of characters between separators stays one lexeme, an `atom`:
whether it is a number, a date or a dotted name depends on where it stands. Comments and
blanks become one kind of token. -/
namespace StableWheel.Document.Toml

/-- A lexeme. -/
inductive Token where
  | equals
  | comma
  | openBracket
  | closeBracket
  | openBrace
  | closeBrace
  | newline
  /-- Spaces, or a comment. -/
  | blank
  | atom (cs : List Char)
  | text (lines : Bool) (s : String)
  deriving Repr, DecidableEq

/-- Characters that may not stand in a comment or a string. -/
def isControl (c : Char) : Bool := (c.toNat < 0x20 && c != '\t') || c.toNat = 0x7f

def isSpace (c : Char) : Bool := c == ' ' || c == '\t'

/-! ### Strings -/

/-- The four kinds of strings: the quote, whether backslashes escape, and whether the
string may go over several lines between triple quotes. -/
structure Style where
  quote : Char
  escapes : Bool
  lines : Bool
  deriving Repr, DecidableEq

/-- Where the reading of a string stands. -/
inductive Mode where
  /-- Between characters, after so many quotes; at the start of a trimmed line if the
  flag is set. -/
  | plain (quotes : Nat) (trimming : Bool)
  | escape
  /-- Digits of a code point that are still due, and its value so far. -/
  | code (due value : Nat)
  /-- Nothing but spaces since a backslash. -/
  | lineEnd
  /-- After a carriage return, which only a line feed may follow. -/
  | carriage (trimming : Bool)
  deriving Repr, DecidableEq

/-- The character after a backslash, if it is one of the short escapes. -/
def shortEscape (c : Char) : Option Char :=
  [('b', '\x08'), ('t', '\t'), ('n', '\n'), ('f', '\x0c'), ('r', '\r'), ('e', '\x1b'),
    ('"', '"'), ('\\', '\\')].lookup c

/-- How many digits the code point after a backslash has. -/
def codeLength (c : Char) : Option Nat := [('x', 2), ('u', 4), ('U', 8)].lookup c

/-- More characters in front of a string that has been read to its end. -/
def emit (front : List Char) (r : Option (List Char × List Char)) :
    Option (List Char × List Char) :=
  r.map fun (content, rest) => (front ++ content, rest)

/-- The content of a string up to its end, and what follows. Between triple quotes a run
of three to five quotes is the end, and all but the last three belong to the content. -/
def body (st : Style) : Mode → List Char → Option (List Char × List Char)
  | .plain quotes _, [] =>
    if 3 ≤ quotes then some (List.replicate (quotes - 3) st.quote, []) else none
  | _, [] => none
  | .plain quotes trimming, c :: rest =>
    if c == st.quote then
      if !st.lines then some ([], rest)
      else if quotes = 5 then none
      else body st (.plain (quotes + 1) false) rest
    else if 3 ≤ quotes then some (List.replicate (quotes - 3) st.quote, c :: rest)
    else emit (List.replicate quotes st.quote) <|
      if c == '\r' then body st (.carriage trimming) rest
      else if trimming && (isSpace c || c == '\n') then body st (.plain 0 true) rest
      else if c == '\n' then if st.lines then emit [c] (body st (.plain 0 false) rest) else none
      else if c == '\\' && st.escapes then body st .escape rest
      else if isControl c then none
      else emit [c] (body st (.plain 0 false) rest)
  | .escape, c :: rest =>
    match codeLength c, shortEscape c with
    | some n, _ => body st (.code n 0) rest
    | none, some e => emit [e] (body st (.plain 0 false) rest)
    | none, none =>
      if !st.lines then none
      else if isSpace c then body st .lineEnd rest
      else if c == '\n' then body st (.plain 0 true) rest
      else if c == '\r' then body st (.carriage true) rest
      else none
  | .code due value, c :: rest =>
    match Json.hexValue c with
    | none => none
    | some d =>
      let next := value * 16 + d
      if 1 < due then body st (.code (due - 1) next) rest
      else if next.isValidChar then emit [Char.ofNat next] (body st (.plain 0 false) rest)
      else none
  | .lineEnd, c :: rest =>
    if isSpace c then body st .lineEnd rest
    else if c == '\n' then body st (.plain 0 true) rest
    else if c == '\r' then body st (.carriage true) rest
    else none
  | .carriage trimming, c :: rest =>
    if c == '\n' && st.lines then
      emit (if trimming then [] else ['\r', '\n']) (body st (.plain 0 trimming) rest)
    else none

/-- A line break right after the opening quotes does not belong to the string. -/
def dropBreak : List Char → List Char
  | '\n' :: rest => rest
  | '\r' :: '\n' :: rest => rest
  | cs => cs

/-- The string whose first quote has been read, and what follows it. -/
def readString (quote : Char) (rest : List Char) : Option (Token × List Char) :=
  let escapes := quote == '"'
  let read (lines : Bool) (cs : List Char) : Option (Token × List Char) :=
    (body ⟨quote, escapes, lines⟩ (.plain 0 false) cs).map fun (content, after) =>
      (.text lines (String.ofList content), after)
  match rest with
  | a :: b :: more => if a == quote && b == quote then read true (dropBreak more) else read false rest
  | _ => read false rest

/-! ### Atoms -/

/-- Whether a character goes on with an atom. -/
def isAtomic (c : Char) : Bool := !("=,[]\x7b\x7d \t#\r\n".toList.contains c)

/-- An atom up to its end, given the character before, and what follows. A quote after a
dot starts a string; anywhere else it goes on with the atom. -/
def splitAtom (before : Char) : List Char → List Char × List Char
  | [] => ([], [])
  | c :: rest =>
    if !isAtomic c || (before == '.' && (c == '"' || c == '\'')) then ([], c :: rest)
    else
      let (more, after) := splitAtom c rest
      (c :: more, after)

/-- Four digits, two and two with dashes between: a date that a time may follow. -/
def isDate (cs : List Char) : Bool :=
  match cs.splitOn '-' with
  | [y, m, d] =>
    y.length = 4 && m.length = 2 && d.length = 2 && (y ++ m ++ d).all Decimal.isDigit
  | _ => false

/-- An atom and what follows it. One space between a date and a digit belongs to it. -/
def readAtom (cs : List Char) : List Char × List Char :=
  let (first, rest) := splitAtom ' ' cs
  match rest with
  | ' ' :: d :: more =>
    if isDate first && Decimal.isDigit d then
      let (second, after) := splitAtom ' ' (d :: more)
      (first ++ ' ' :: second, after)
    else (first, rest)
  | _ => (first, rest)

/-! ### Lexemes -/

/-- A comment whose sign has been read: its length, if it may stand. -/
def commentLength (rest : List Char) : Option Nat :=
  let line := rest.takeWhile (· != '\n')
  let text :=
    if line.getLast? == some '\r' && line.length < rest.length then line.dropLast else line
  if text.any isControl then none else some text.length

/-- The lexeme that starts with a character, and how many more characters belong to it. -/
def lexeme (c : Char) (rest : List Char) : Option (Token × Nat) :=
  if c == '=' then some (.equals, 0)
  else if c == ',' then some (.comma, 0)
  else if c == '[' then some (.openBracket, 0)
  else if c == ']' then some (.closeBracket, 0)
  else if c == '\x7b' then some (.openBrace, 0)
  else if c == '\x7d' then some (.closeBrace, 0)
  else if isSpace c then some (.blank, 0)
  else if c == '\n' then some (.newline, 0)
  else if c == '\r' then if rest.head? == some '\n' then some (.newline, 1) else none
  else if c == '#' then (commentLength rest).map fun n => (.blank, n)
  else if c == '"' || c == '\'' then
    (readString c rest).map fun (t, after) => (t, rest.length - after.length)
  else
    let (cs, after) := readAtom (c :: rest)
    some (.atom cs, rest.length - after.length)

/-- The lexemes of a text, the first characters being part of one already read. -/
def scanAfter : Nat → List Char → Option (List Token)
  | _, [] => some []
  | n + 1, _ :: rest => scanAfter n rest
  | 0, c :: rest => do
    let (t, n) ← lexeme c rest
    return t :: (← scanAfter n rest)

/-- The lexemes of a text. A byte order mark in front does not count. -/
def Token.scan : List Char → Option (List Token)
  | '\ufeff' :: rest => scanAfter 0 rest
  | cs => scanAfter 0 cs

end StableWheel.Document.Toml
