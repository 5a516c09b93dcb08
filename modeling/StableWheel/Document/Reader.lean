import StableWheel.Document.Node
import StableWheel.Document.Fault
import StableWheel.Path

/-! Reading values of known kinds out of a document.

A reader visits values in the order in which the document holds them and reports the
first fault it meets. A record takes its fields in the document's order, then looks for
the missing ones in the record's own order; it may also be written as a sequence of its
fields. -/
namespace StableWheel.Document

/-- Where two kinds of documents differ for a reader. -/
structure Dialect where
  /-- Values nobody asks for are read for their form only. -/
  skims : Bool
  /-- A record written as a sequence may have more elements than the record has fields. -/
  allowsExtra : Bool
  deriving Repr, DecidableEq

/-- What a value turns out to be, for a message. -/
def Node.found? : Node → Option Found
  | null => some .null
  | boolean b => some (.boolean b)
  | integer n => some (.integer n)
  | wide n => some (.wide n)
  | floating t => some (.floating t)
  | text s => some (.text s)
  | sequence _ _ => some .sequence
  | table _ _ => some .map
  | unfit => none
  | broken => none

/-- The fault of a value of another kind than the wanted one. -/
def Node.mismatch (n : Node) (w : Wanted) : Fault :=
  match n.found? with
  | some f => .wrongKind f w
  | none => .unreadable

/-- A way to read a value. -/
abbrev Reader (α : Type) := Node → Except Fault α

namespace Reader

/-! ### Single values -/

def text : Reader String
  | .text s => .ok s
  | n => .error (n.mismatch .text)

def path : Reader Path
  | .text s => .ok ⟨s⟩
  | n => .error (n.mismatch .path)

/-- A number of eight bits. -/
def octet : Reader UInt8
  | .integer n =>
    if 0 ≤ n ∧ n < 256 then .ok (UInt8.ofNat n.toNat)
    else .error (.outOfRange (.integer n) .octet)
  | n => .error (n.mismatch .octet)

/-- A value that may be null. -/
def nullable {α : Type} (r : Reader α) : Reader (Option α)
  | .null => .ok none
  | n => (r n).map some

/-! ### Containers -/

/-- Something that has to end properly. -/
def closing {α : Type} (closed : Bool) (x : α) : Except Fault α :=
  if closed then .ok x else .error .unreadable

/-- A sequence of any length. -/
def list {α : Type} (r : Reader α) : Reader (List α)
  | .sequence items closed => do
    let xs ← items.mapM r
    closing closed xs
  | n => .error (n.mismatch .sequence)

/-- Names with values, in the document's order. -/
def map {α : Type} (r : Reader α) : Reader (List (String × α))
  | .table fields closed => do
    let xs ← fields.mapM fun f => do return (f.1, ← r f.2)
    closing closed xs
  | n => .error (n.mismatch .map)

/-- A value nobody asks for. -/
def ignored (d : Dialect) : Reader Unit := fun n =>
  if !n.whole then .error .unreadable
  else if d.skims then .ok ()
  else
    let test : Node → Option Unit := fun
      | .unfit => some ()
      | _ => none
    match n.firstLeaf test with
    | some _ => .error .unreadable
    | none => .ok ()

/-- A value that is kept for later: any value will do, but not a number beyond
sixty-four bits. -/
def kept : Reader Node := fun n =>
  let test : Node → Option Fault := fun
    | .unfit | .broken => some .unreadable
    | .wide k => some (.wrongKind (.wide k) .anything)
    | _ => none
  match n.firstLeaf test with
  | some fault => .error fault
  | none => if n.whole then .ok n else .error .unreadable

end Reader

/-! ### Records -/

/-- One field of a record: its name, and a check that reads it and forgets the value. -/
structure Field where
  name : String
  check : Reader Unit

/-- A field with its reader. -/
def Field.of {α : Type} (name : String) (r : Reader α) : Field :=
  ⟨name, fun n => (r n).map fun _ => ()⟩

/-- The fields of a record that were given, and the fault of one that was not. -/
structure Given where
  fields : List (String × Node)
  absent : String → Fault

namespace Given

/-- A field that has to be there. -/
def required {α : Type} (g : Given) (name : String) (r : Reader α) : Except Fault α :=
  match g.fields.lookup name with
  | some n => r n
  | none => .error (g.absent name)

/-- A field that may be left out. -/
def defaulted {α : Type} (g : Given) (name : String) (r : Reader α) (default : α) :
    Except Fault α :=
  match g.fields.lookup name with
  | some n => r n
  | none => .ok default

end Given

/-- Visits fields in the document's order. A known name may come once. -/
def visit (d : Dialect) (record : List Field) :
    List String → List (String × Node) → Except Fault Unit
  | _, [] => .ok ()
  | seen, (name, n) :: rest =>
    match record.find? fun f => f.name == name with
    | none => do
      Reader.ignored d n
      visit d record seen rest
    | some f =>
      if seen.contains name then .error (.repeated name)
      else do
        f.check n
        visit d record (name :: seen) rest

/-- Visits the elements of a record that is written as a sequence. -/
def visitItems : List Field → List Node → Except Fault Unit
  | f :: fields, n :: rest => do
    f.check n
    visitItems fields rest
  | _, _ => .ok ()

/-- A record, from a table of its fields or from the sequence of them. -/
def Reader.record {α : Type} (d : Dialect) (name : String) (record : List Field)
    (build : Given → Except Fault α) : Reader α
  | .table fields closed => do
    visit d record [] fields
    closing closed ()
    build ⟨fields, .missing⟩
  | .sequence items closed => do
    visitItems record items
    let names := record.map Field.name
    if items.length < record.length then closing closed ()
    let x ← build ⟨names.zip items, fun f => .tooShort (names.idxOf f) name names.length⟩
    if d.allowsExtra || (items.length ≤ record.length && closed) then .ok x
    else .error .unreadable
  | n => .error (n.mismatch (.record name))

end StableWheel.Document
