/-! Blank characters: trimming a text and cutting it into words.

A character is blank when Unicode calls it white space, so the trimming here also
removes no-break spaces and the paragraph separators. `words` never yields an
empty word and none of its words holds a blank. -/
namespace StableWheel.Text

/-- Unicode's white space characters. -/
def isBlank (c : Char) : Bool :=
  let n := c.toNat
  (9 ≤ n && n ≤ 13) || n == 0x20 || n == 0x85 || n == 0xa0 || n == 0x1680
    || (0x2000 ≤ n && n ≤ 0x200a) || n == 0x2028 || n == 0x2029 || n == 0x202f
    || n == 0x205f || n == 0x3000

/-! ### Trimming -/

/-- Without the blanks in front. -/
def trimStart (cs : List Char) : List Char := cs.dropWhile isBlank

/-- Without the blanks at the end. -/
def trimEnd (cs : List Char) : List Char := (cs.reverse.dropWhile isBlank).reverse

/-- Without the blanks on either side. -/
def trimmed (cs : List Char) : List Char := trimEnd (trimStart cs)

/-- Without the blanks on either side. -/
def trim (s : String) : String := String.ofList (trimmed s.toList)

/-- Nothing but blanks, so that trimming leaves nothing. -/
def allBlank (s : String) : Bool := s.toList.all isBlank

theorem trim_toList (s : String) : (trim s).toList = trimmed s.toList := by
  simp [trim]

/-! ### Words -/

/-- The runs of characters between blanks, in order. -/
def wordsOf (cs : List Char) : List (List Char) :=
  (cs.splitOnP isBlank).filter (fun w => !w.isEmpty)

/-- The runs of characters between blanks, in order. -/
def words (s : String) : List String := (wordsOf s.toList).map String.ofList

end StableWheel.Text
