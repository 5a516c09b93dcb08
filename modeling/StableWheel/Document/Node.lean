/-! What a structured document holds, as far as it could be read.

A document is a tree of values. Reading the text of one never fails: where the text
stops making sense the tree is cut off, and the containers around the cut are marked
as not closed. A reader that visits the tree in order therefore notices a value of the
wrong kind before a cut that lies behind it. -/
namespace StableWheel.Document

/-- A value of a document. -/
inductive Node where
  | null
  | boolean (b : Bool)
  /-- A whole number of at most sixty-four bits. -/
  | integer (n : Int)
  /-- A whole number beyond sixty-four bits. -/
  | wide (n : Int)
  /-- Any other number, with the text that messages show. -/
  | floating (text : String)
  | text (s : String)
  /-- A value of the right form that stands for nothing, such as a number out of range. -/
  | unfit
  /-- Where the text stops making sense. -/
  | broken
  | sequence (items : List Node) (closed : Bool)
  | table (fields : List (String × Node)) (closed : Bool)
  deriving Repr, Inhabited

namespace Node

/-! ### What is wrong anywhere inside -/

mutual

/-- Nothing inside is cut off. -/
def whole : Node → Bool
  | broken => false
  | sequence items closed => wholeItems items && closed
  | table fields closed => wholeFields fields && closed
  | _ => true

def wholeItems : List Node → Bool
  | [] => true
  | n :: rest => n.whole && wholeItems rest

def wholeFields : List (String × Node) → Bool
  | [] => true
  | (_, n) :: rest => n.whole && wholeFields rest

end

mutual

/-- The first value inside, in order, for which the test finds something. -/
def firstLeaf {α : Type} (test : Node → Option α) : Node → Option α
  | sequence items _ => firstItem test items
  | table fields _ => firstField test fields
  | n => test n

def firstItem {α : Type} (test : Node → Option α) : List Node → Option α
  | [] => none
  | n :: rest => (firstLeaf test n).or (firstItem test rest)

def firstField {α : Type} (test : Node → Option α) : List (String × Node) → Option α
  | [] => none
  | (_, n) :: rest => (firstLeaf test n).or (firstField test rest)

end

end Node
end StableWheel.Document
