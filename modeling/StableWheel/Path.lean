import StableWheel.Text.Split

/-! Paths: texts that name files, and the components they consist of.

A path keeps the text it was given; nothing is normalised when paths are joined.
Two paths name the same place lexically when their components agree: repeated
separators, a trailing one and inner dots do not count, while two dots do. Paths are
ordered component by component. -/
namespace StableWheel

/-- A path, as written. -/
structure Path where
  text : String
  deriving Repr, DecidableEq, Inhabited

namespace Path

/-- One step of a path. A dot counts only at the start of a relative path. -/
inductive Component where
  | root
  | here
  | up
  | name (s : String)
  deriving Repr, DecidableEq

/-- Steps of different kinds are ordered by kind. -/
def Component.rank : Component → Nat
  | root => 0
  | here => 1
  | up => 2
  | name _ => 3

/-- The text of a step. -/
def Component.text : Component → String
  | root => "/"
  | here => "."
  | up => ".."
  | name s => s

instance : Ord Component := ⟨compareLex (compareOn Component.rank) (compareOn Component.text)⟩

/-! ### Components -/

/-- Separators and dots that stand for nothing, at the front. -/
def skipIdle : List Char → List Char
  | '/' :: rest => skipIdle rest
  | ['.'] => []
  | '.' :: '/' :: rest => skipIdle rest
  | cs => cs

/-- A reversed text without the separators and dots that stand for nothing. -/
def skipIdleBack : List Char → List Char
  | '/' :: rest => skipIdleBack rest
  | ['.'] => []
  | '.' :: '/' :: rest => skipIdleBack ('/' :: rest)
  | cs => cs

/-- The piece between two separators as a step, if it is one. -/
def stepOf (piece : List Char) : Option Component :=
  if piece = [] || piece = ['.'] then none
  else if piece = ['.', '.'] then some .up
  else some (.name (String.ofList piece))

/-- The steps in a text, all pieces alike. -/
def stepsIn (cs : List Char) : List Component := (cs.splitOn '/').filterMap stepOf

/-- How a text starts: at the root, with a dot, or neither. -/
def leading (cs : List Char) : Option Component :=
  match cs with
  | '/' :: _ => some .root
  | ['.'] => some .here
  | '.' :: '/' :: _ => some .here
  | _ => none

/-- The steps of a path. -/
def components (p : Path) : List Component :=
  let cs := p.text.toList
  (leading cs).toList ++ stepsIn cs

/-- Whether a path starts at the root. -/
def isAbsolute (p : Path) : Bool := p.text.toList.head? == some '/'

def isEmpty (p : Path) : Bool := p.text.isEmpty

/-- The same steps in the same order. -/
def same (p q : Path) : Bool := p.components == q.components

/-- The order of paths. -/
def le (p q : Path) : Bool := (compare p.components q.components).isLE

/-! ### Joining -/

/-- `q` below `p`. An absolute path replaces what it is joined to, and joining the empty
path leaves a separator at the end. -/
def join (p q : Path) : Path :=
  if q.isAbsolute || p.isEmpty then q
  else if p.text.toList.getLast? == some '/' then ⟨p.text ++ q.text⟩
  else ⟨p.text ++ "/" ++ q.text⟩

/-- One part after the other below a path. -/
def extend (p : Path) (parts : List String) : Path :=
  parts.foldl (fun q part => q.join ⟨part⟩) p

/-! ### Taking apart -/

/-- Everything but the start of the path, reversed and without idle characters at the end. -/
def bodyBack (p : Path) : List Char :=
  skipIdleBack (p.text.toList.drop (leading p.text.toList).toList.length).reverse

/-- The start of a path followed by a reversed body. -/
def withBodyBack (p : Path) (body : List Char) : Path :=
  ⟨String.ofList (p.text.toList.take (leading p.text.toList).toList.length ++ body.reverse)⟩

/-- Without separators and dots at the end. -/
def tidyEnd (p : Path) : Path := p.withBodyBack p.bodyBack

/-- The path without its last step, if its last step is not the root. -/
def parent (p : Path) : Option Path :=
  match p.components.getLast? with
  | none | some .root => none
  | some .here => some ⟨""⟩
  | some _ => some (p.withBodyBack (skipIdleBack (p.bodyBack.dropWhile (· != '/'))))

/-- The last step, if it is a name. -/
def fileName (p : Path) : Option String :=
  match p.components.getLast? with
  | some (.name s) => some s
  | _ => none

/-- What follows the last dot of the file name, unless nothing stands before it. -/
def extension (p : Path) : Option String := do
  let name := (← p.fileName).toList.reverse
  match name.dropWhile (· != '.') with
  | _ :: _ :: _ => some (String.ofList (name.takeWhile (· != '.')).reverse)
  | _ => none

/-- The file name up to its last dot; all of it, if nothing stands before that dot. -/
def stem (p : Path) : Option String := do
  let name := (← p.fileName).toList.reverse
  match name.dropWhile (· != '.') with
  | _ :: before@(_ :: _) => some (String.ofList before.reverse)
  | _ => p.fileName

/-- A text without its first steps. -/
def dropSteps : Nat → List Char → List Char
  | 0, cs => skipIdle cs
  | n + 1, cs => dropSteps n ((skipIdle cs).dropWhile (· != '/'))

/-- The path below `base`, if all steps of `base` come first. -/
def relativeTo (p base : Path) : Option Path :=
  let steps := base.components
  if steps.isPrefixOf p.components then
    match steps with
    | [] => some p.tidyEnd
    | _ :: more =>
      let cs := p.text.toList
      let start := (leading cs).toList.length
      let rest := dropSteps (if start = 0 then more.length + 1 else more.length) (cs.drop start)
      some ⟨String.ofList (skipIdleBack rest.reverse).reverse⟩
  else none

/-! ### Lists of paths -/

/-- Of neighbours that name the same place only the first. -/
def dropRepeats : List Path → List Path
  | [] => []
  | [p] => [p]
  | p :: q :: rest =>
    if p.same q then dropRepeats (p :: rest) else p :: dropRepeats (q :: rest)
  termination_by ps => ps.length

/-- In rising order, each place once. -/
def sorted (ps : List Path) : List Path := dropRepeats (ps.mergeSort le)

/-! ### Small laws -/

theorem join_of_absolute (p q : Path) (h : q.isAbsolute = true) : p.join q = q := by
  simp [join, h]

theorem extend_append (p : Path) (xs ys : List String) :
    p.extend (xs ++ ys) = (p.extend xs).extend ys := by
  simp [extend]

end Path
end StableWheel
