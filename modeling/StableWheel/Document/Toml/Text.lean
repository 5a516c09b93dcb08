import StableWheel.Document.Reader
import StableWheel.Document.Toml.Statement

/-! TOML documents as trees.

A document is well formed as a whole or not at all: values are looked at only after the
last statement has found its place. -/
namespace StableWheel.Document.Toml

/-- The tables defined so far, and the header under which names are defined. -/
structure Progress where
  root : Fields
  header : List String

/-- What one statement adds. -/
def Progress.step (p : Progress) : Statement → Option Progress
  | .table path => (openTable path p.root).map fun root => ⟨root, path⟩
  | .element path => (openElement path p.root).map fun root => ⟨root, path⟩
  | .assign path n =>
    (within false (assign path n) p.header .explicit p.root).map fun root => ⟨root, p.header⟩

/-- The tree of a text, if it is well formed. -/
def tree? (s : String) : Option Node := do
  let p ← (← statements? s.toList).foldlM Progress.step ⟨[], []⟩
  return p.root.node

/-- How TOML documents are read. -/
def dialect : Dialect := ⟨false, true⟩

/-- Reads a value from a text. -/
def read {α : Type} (r : Reader α) (s : String) : Except Fault α :=
  match tree? s with
  | some n => r n
  | none => .error .unreadable

end StableWheel.Document.Toml
