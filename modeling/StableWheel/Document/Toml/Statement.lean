import StableWheel.Document.Toml.Scalar
import StableWheel.Document.Toml.Table
import StableWheel.Document.Toml.Token

/-! TOML documents as statements.

A document is a list of headers and of names with values. The tokens are read one by one
with the values that are still open on a stack. Arrays and tables in braces may go over
several lines, and lines may break there between any two parts but those of a dotted name.
Values nest at most eighty deep, and a dotted name has at most eighty parts. -/
namespace StableWheel.Document.Toml

/-- A header, or a name with its value. -/
inductive Statement where
  | table (path : List String)
  | element (path : List String)
  | assign (path : List String) (n : Node)
  deriving Repr

/-! ### Names -/

/-- A part of a dotted name as it is read. -/
inductive Part where
  | name (s : String)
  | dot
  deriving Repr, DecidableEq

/-- What a name without quotes may consist of. -/
def isBare (c : Char) : Bool :=
  ('a' ≤ c && c ≤ 'z') || ('A' ≤ c && c ≤ 'Z') || Decimal.isDigit c || c == '-' || c == '_'

/-- The parts of an atom: names with dots between them, any of which may be missing. -/
def atomParts (cs : List Char) : Option (List Part) := do
  let runs ← (cs.splitOn '.').mapM fun run =>
    if run.isEmpty then some []
    else if run.all isBare then some [Part.name (String.ofList run)]
    else none
  return [Part.dot].intercalate runs

/-- The parts a token adds to a name. -/
def Token.parts : Token → Option (List Part)
  | .atom cs => atomParts cs
  | .text false s => some [.name s]
  | .blank => some []
  | _ => none

/-- How deep values may nest, and how many parts a dotted name may have. -/
def depthLimit : Nat := 80

/-- Names with one dot between each two. -/
def dotted : List Part → Option (List String)
  | [.name s] => some [s]
  | .name s :: .dot :: rest => (dotted rest).map (s :: ·)
  | _ => none

/-- A name, perhaps dotted, as the path that it stands for. -/
def pathOf (parts : List Part) : Option (List String) :=
  (dotted parts).filter fun path => path.length ≤ depthLimit

/-! ### Values and lines -/

/-- Something that waits for a value. -/
inductive Frame where
  | line (path : List String)
  | items (done : List Node)
  | fields (done : Fields) (path : List String)
  deriving Repr

/-- What may come next. -/
inductive Due where
  | line
  /-- After the first bracket of a header. -/
  | bracket
  | header (repeated : Bool) (parts : List Part)
  | secondBracket (path : List String)
  | lineName (parts : List Part)
  /-- A value; or the end of the array around it. -/
  | value (orEnd : Bool)
  /-- A comma or the end of an array, whose contents are given last first. -/
  | afterItem (done : List Node)
  | fieldName (done : Fields) (parts : List Part)
  /-- The sign after a name at which a line has ended. -/
  | equals (done : Fields) (path : List String)
  | afterField (done : Fields)
  | lineEnd
  deriving Repr

/-- Whether one more value may be opened; the lowest frame is a line. -/
def mayOpen (outer : List Frame) : Bool := outer.length ≤ depthLimit

/-- Whether lines may break while a value is due. -/
def breaksLines : List Frame → Bool
  | .items _ :: _ | .fields _ _ :: _ => true
  | _ => false

/-- What a token comes to: perhaps a finished statement, the values that are open after it,
and what may come next. -/
abbrev Turn := Option Statement × List Frame × Due

/-- Goes on without a finished statement. -/
def goOn (outer : List Frame) (due : Due) : Turn := (none, outer, due)

/-- A finished value goes to what waits for it. -/
def deliver (outer : List Frame) (n : Node) : Option Turn :=
  match outer with
  | [] => none
  | .line path :: _ => some (some (.assign path n), [], .lineEnd)
  | .items done :: more => some (goOn more (.afterItem (n :: done)))
  | .fields done path :: more => do
    return goOn more (.afterField (← assign path n .explicit done))

/-- Takes one token. -/
def turn (outer : List Frame) (due : Due) (t : Token) : Option Turn :=
  match due with
  | .line =>
    match t with
    | .newline => some (goOn [] .line)
    | .openBracket => some (goOn [] .bracket)
    | .blank => some (goOn [] .line)
    | _ => do return goOn [] (.lineName (← t.parts))
  | .bracket =>
    match t with
    | .openBracket => some (goOn [] (.header true []))
    | _ => do return goOn [] (.header false (← t.parts))
  | .header repeated parts =>
    match t with
    | .closeBracket => do
      let path ← pathOf parts
      if repeated then return goOn [] (.secondBracket path)
      else return (some (.table path), [], .lineEnd)
    | _ => do return goOn [] (.header repeated (parts ++ (← t.parts)))
  | .secondBracket path =>
    match t with
    | .closeBracket => some (some (.element path), [], .lineEnd)
    | _ => none
  | .lineName parts =>
    match t with
    | .equals => do return goOn [.line (← pathOf parts)] (.value false)
    | _ => do return goOn [] (.lineName (parts ++ (← t.parts)))
  | .value orEnd =>
    match t with
    | .blank => some (goOn outer (.value orEnd))
    | .newline => if breaksLines outer then some (goOn outer (.value orEnd)) else none
    | .atom cs => do deliver outer (← scalar? cs)
    | .text _ s => deliver outer (.text s)
    | .openBracket => if mayOpen outer then some (goOn (.items [] :: outer) (.value true)) else none
    | .openBrace => if mayOpen outer then some (goOn outer (.fieldName [] [])) else none
    | .closeBracket =>
      match orEnd, outer with
      | true, .items done :: more => deliver more (.sequence done.reverse true)
      | _, _ => none
    | _ => none
  | .afterItem done =>
    match t with
    | .blank | .newline => some (goOn outer (.afterItem done))
    | .comma => some (goOn (.items done :: outer) (.value true))
    | .closeBracket => deliver outer (.sequence done.reverse true)
    | _ => none
  | .fieldName done parts =>
    match t with
    | .newline =>
      if parts.isEmpty then some (goOn outer (.fieldName done []))
      else do return goOn outer (.equals done (← pathOf parts))
    | .equals => do return goOn (.fields done (← pathOf parts) :: outer) (.value false)
    | .closeBrace => if parts.isEmpty then deliver outer done.node else none
    | _ => do return goOn outer (.fieldName done (parts ++ (← t.parts)))
  | .equals done path =>
    match t with
    | .blank | .newline => some (goOn outer (.equals done path))
    | .equals => some (goOn (.fields done path :: outer) (.value false))
    | _ => none
  | .afterField done =>
    match t with
    | .blank | .newline => some (goOn outer (.afterField done))
    | .comma => some (goOn outer (.fieldName done []))
    | .closeBrace => deliver outer done.node
    | _ => none
  | .lineEnd =>
    match t with
    | .blank => some (goOn [] .lineEnd)
    | .newline => some (goOn [] .line)
    | _ => none

/-- The statements of a document, from any point on. -/
def build (outer : List Frame) (due : Due) : List Token → Option (List Statement)
  | [] =>
    match due with
    | .line | .lineEnd => some []
    | _ => none
  | t :: rest => do
    let (finished, outer, due) ← turn outer due t
    return finished.toList ++ (← build outer due rest)

/-- The statements of a text, if it is well formed. -/
def statements? (cs : List Char) : Option (List Statement) := do
  build [] .line (← Token.scan cs)

end StableWheel.Document.Toml
