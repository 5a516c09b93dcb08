import StableWheel.Document.Node

/-! Tables under construction.

A table can come into being in three ways: under a header, on the way to a table with a
longer header, or on the way to a value with a dotted name. How it came into being decides
what may still be added: a header may claim a table that was only passed on the way to
another one, dotted names may add to what dotted names began, and nothing may be defined
twice. Written values, tables in braces among them, are complete. -/
namespace StableWheel.Document.Toml

/-- How a table came into being. -/
inductive Kind where
  | explicit
  | implicit
  | dotted
  deriving Repr, DecidableEq

/-- What a name stands for in a table under construction. -/
inductive Item where
  | leaf (n : Node)
  | table (kind : Kind) (fields : List (String × Item))
  /-- Tables under one repeated header. -/
  | tables (elements : List (List (String × Item)))
  deriving Repr

/-- The names of a table, in the order of their definition. -/
abbrev Fields := List (String × Item)

/-- The names with one of them standing for something else. -/
def Fields.replace (fields : Fields) (key : String) (item : Item) : Fields :=
  fields.map fun f => if f.1 == key then (key, item) else f

/-- One more name, if it is not taken. -/
def Fields.define (fields : Fields) (key : String) (item : Item) : Option Fields :=
  if (fields.lookup key).isSome then none else some (fields ++ [(key, item)])

/-- Changes the table at the end of a path, creating tables that are missing on the way.
A repeated header stands for its last table. -/
def within (byDots : Bool) (act : Kind → Fields → Option Fields) :
    List String → Kind → Fields → Option Fields
  | [], kind, fields => act kind fields
  | key :: path, _, fields =>
    match fields.lookup key with
    | none => do
      let kind := if byDots then Kind.dotted else Kind.implicit
      return fields ++ [(key, .table kind (← within byDots act path kind []))]
    | some (.table kind sub) =>
      if byDots ∧ kind = .explicit then none
      else do return fields.replace key (.table kind (← within byDots act path kind sub))
    | some (.tables elements) =>
      match elements.getLast? with
      | none => none
      | some sub => do
        let changed ← within byDots act path .explicit sub
        return fields.replace key (.tables (elements.dropLast ++ [changed]))
    | some (.leaf _) => none

/-- A name, perhaps dotted, and its value. Dots may not lead into a table that a header
passed through. -/
def assign (path : List String) (n : Node) (kind : Kind) (fields : Fields) : Option Fields :=
  match path.getLast? with
  | none => none
  | some key =>
    let before := path.dropLast
    within true (fun last inner =>
      if decide (last = .dotted) == before.isEmpty then none else inner.define key (.leaf n))
      before kind fields

/-- A header that opens a table. -/
def openTable (path : List String) (fields : Fields) : Option Fields :=
  match path.getLast? with
  | none => none
  | some key =>
    within false (fun _ inner =>
      match inner.lookup key with
      | none => some (inner ++ [(key, .table .explicit [])])
      | some (.table .implicit sub) => some (inner.replace key (.table .explicit sub))
      | _ => none)
      path.dropLast .explicit fields

/-- A header that opens one more table of the same name. -/
def openElement (path : List String) (fields : Fields) : Option Fields :=
  match path.getLast? with
  | none => none
  | some key =>
    within false (fun _ inner =>
      match inner.lookup key with
      | none => some (inner ++ [(key, .tables [[]])])
      | some (.tables elements) => some (inner.replace key (.tables (elements ++ [[]])))
      | _ => none)
      path.dropLast .explicit fields

/-! ### Finished tables -/

/-- A field among fields that are in the order of their names. -/
def insertByName (f : String × Node) : List (String × Node) → List (String × Node)
  | [] => [f]
  | g :: rest => if f.1 ≤ g.1 then f :: g :: rest else g :: insertByName f rest

/-- Fields by name. -/
def byName (fields : List (String × Node)) : List (String × Node) :=
  fields.foldr insertByName []

mutual

/-- The value of a finished item; tables are in the order of their names. -/
def Item.node : Item → Node
  | .leaf n => n
  | .table _ fields => .table (byName (nodesOf fields)) true
  | .tables elements => .sequence (elementsOf elements) true

def nodesOf : List (String × Item) → List (String × Node)
  | [] => []
  | (key, item) :: rest => (key, item.node) :: nodesOf rest

def elementsOf : List (List (String × Item)) → List Node
  | [] => []
  | fields :: rest => .table (byName (nodesOf fields)) true :: elementsOf rest

end

/-- The value of a finished table. -/
def Fields.node (fields : Fields) : Node := .table (byName (nodesOf fields)) true

end StableWheel.Document.Toml
