import StableWheel.Document.Json.Token
import StableWheel.Document.Reader
import StableWheel.Text.Blank

/-! JSON documents as trees.

The lexemes are read one by one with the containers that are still open on a stack, so
values may nest as deep as they like. Where the lexemes make no sense the open containers
are ended as they are. -/
namespace StableWheel.Document.Json

/-- A container that is still open, its contents last first. -/
inductive Frame where
  | items (done : List Node)
  | fields (done : List (String × Node)) (key : String)
  deriving Repr

/-- What may come next. -/
inductive Due where
  /-- A value; or, right after a bracket, its end. -/
  | value (orEnd : Bool)
  /-- A name in a table; or, right after a brace, its end. -/
  | key (done : List (String × Node)) (orEnd : Bool)
  | colon (done : List (String × Node)) (key : String)
  /-- A comma or the end of a sequence. -/
  | afterItem (done : List Node)
  /-- A comma or the end of a table. -/
  | afterField (done : List (String × Node))
  deriving Repr

/-- Ends every open container as it is, around a value that was cut off. -/
def cutOff (n : Node) : List Frame → Node
  | [] => n
  | .items done :: outer => cutOff (.sequence (n :: done).reverse false) outer
  | .fields done name :: outer => cutOff (.table ((name, n) :: done).reverse false) outer

/-- Ends every open container where the lexemes stopped making sense. -/
def Due.cut (outer : List Frame) : Due → Node
  | .value _ => cutOff .broken outer
  | .key done _ => cutOff (.table done.reverse false) outer
  | .colon done name => cutOff .broken (.fields done name :: outer)
  | .afterItem done => cutOff (.sequence done.reverse false) outer
  | .afterField done => cutOff (.table done.reverse false) outer

/-- What a lexeme comes to. -/
inductive Turn where
  | goOn (outer : List Frame) (due : Due)
  /-- A value that no container is open around. -/
  | whole (n : Node)
  /-- What there is where lexemes stop making sense. -/
  | cut (n : Node)
  deriving Repr

/-- A finished value goes into the container around it. -/
def deliver (outer : List Frame) (n : Node) : Turn :=
  match outer with
  | [] => .whole n
  | .items done :: more => .goOn more (.afterItem (n :: done))
  | .fields done name :: more => .goOn more (.afterField ((name, n) :: done))

/-- Takes one lexeme. -/
def turn (outer : List Frame) (due : Due) (t : Token) : Turn :=
  match due, t with
  | .value _, .scalar n => deliver outer n
  | .value _, .text s => deliver outer ((s.map Node.text).getD .unfit)
  | .value _, .openBracket => .goOn (.items [] :: outer) (.value true)
  | .value _, .openBrace => .goOn outer (.key [] true)
  | .value true, .closeBracket =>
    match outer with
    | .items _ :: more => deliver more (.sequence [] true)
    | _ => .cut (due.cut outer)
  | .key done _, .text (some s) => .goOn outer (.colon done s)
  | .key _ true, .closeBrace => deliver outer (.table [] true)
  | .colon done s, .colon => .goOn (.fields done s :: outer) (.value false)
  | .afterItem done, .comma => .goOn (.items done :: outer) (.value false)
  | .afterItem done, .closeBracket => deliver outer (.sequence done.reverse true)
  | .afterField done, .comma => .goOn outer (.key done false)
  | .afterField done, .closeBrace => deliver outer (.table done.reverse true)
  | _, _ => .cut (due.cut outer)

/-- The tree of a text, and whether something follows it. -/
def build (outer : List Frame) (due : Due) : List Token → Node × Bool
  | [] => (due.cut outer, false)
  | t :: rest =>
    match turn outer due t with
    | .goOn outer due => build outer due rest
    | .whole n => (n, !rest.isEmpty)
    | .cut n => (n, false)

/-- How JSON documents are read. -/
def dialect : Dialect := ⟨true, false⟩

/-- Reads a value from a text. Blanks around it do not matter; anything else after it
does, once the value itself has been read. -/
def read {α : Type} (r : Reader α) (s : String) : Except Fault α := do
  let (n, more) := build [] (.value false) (Token.scan (Text.trimmed s.toList))
  let x ← r n
  if more then .error .unreadable else .ok x

end StableWheel.Document.Json
