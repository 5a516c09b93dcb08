/-! Cutting texts at a separator and putting pieces together again. -/
namespace StableWheel.Text

/-- The pieces between separators; a text without any is one piece. -/
def pieces (separator : Char) (s : String) : List String :=
  (s.toList.splitOn separator).map String.ofList

/-- The pieces that hold something. -/
def filledPieces (separator : Char) (s : String) : List String :=
  (pieces separator s).filter (fun p => !p.isEmpty)

/-- What stands before the first separator and, if there is one, what follows it. -/
def cutFirst (separator : Char) (cs : List Char) : List Char × Option (List Char) :=
  match cs.dropWhile (· != separator) with
  | [] => (cs, none)
  | _ :: rest => (cs.takeWhile (· != separator), some rest)

/-- At most two cuts, so that further separators stay in the third piece. -/
def cutThree (separator : Char) (cs : List Char) : List (List Char) :=
  match cutFirst separator cs with
  | (first, none) => [first]
  | (first, some rest) =>
    match cutFirst separator rest with
    | (second, none) => [first, second]
    | (second, some third) => [first, second, third]

/-- Pieces with the same text between each two. -/
def join (between : String) (parts : List String) : String := between.intercalate parts

/-- Every character for which the test holds gives way to one replacement. -/
def replaceIf (test : Char → Bool) (replacement : Char) (s : String) : String :=
  String.ofList (s.toList.map fun c => if test c then replacement else c)

/-- Whether one run of characters occurs inside another. -/
def occursIn (needle : List Char) : List Char → Bool
  | [] => needle.isEmpty
  | c :: rest => needle.isPrefixOf (c :: rest) || occursIn needle rest

end StableWheel.Text
