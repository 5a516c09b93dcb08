import StableWheel.Decimal.Natural

/-! Archives as lists of members.

An archive is the list of its members in the order in which they were added. No name may
be added twice. Every member has the same timestamp, so nothing but names, permissions and
contents tells two archives apart. -/
namespace StableWheel.Archive

/-- A file in an archive. -/
structure Member where
  name : String
  /-- Whether the file may be executed once it is unpacked. -/
  executable : Bool
  content : ByteArray

instance : DecidableEq Member := fun m n =>
  decidable_of_iff
    (m.name = n.name ∧ m.executable = n.executable ∧ m.content.data = n.content.data)
    (by cases m; cases n; simp [ByteArray.ext_iff])

/-- The permissions of a member, with the kind of file in front. -/
def Member.permissions (m : Member) : Nat := if m.executable then 0o100755 else 0o100644

/-- The permissions in octal. -/
def Member.mode (m : Member) : String := String.ofList (Nat.toDigits 8 m.permissions)

/-! ### When members were changed -/

/-- A moment, to the second. -/
structure Moment where
  year : Nat
  month : Nat
  day : Nat
  hour : Nat
  minute : Nat
  second : Nat
  deriving Repr, DecidableEq

/-- A number with two digits at least. -/
def twoDigits (n : Nat) : String := if n < 10 then "0" ++ Decimal.natural n else Decimal.natural n

def Moment.text (t : Moment) : String :=
  Decimal.natural t.year ++ "-" ++ twoDigits t.month ++ "-" ++ twoDigits t.day ++ " "
    ++ twoDigits t.hour ++ ":" ++ twoDigits t.minute ++ ":" ++ twoDigits t.second

/-- The earliest moment that archives can hold. -/
def Moment.earliest : Moment := ⟨1980, 1, 1, 0, 0, 0⟩

/-- The moment every member is said to be changed. -/
def timestamp : String := Moment.earliest.text

/-! ### Adding members -/

/-- A name that an archive holds already. -/
structure Repeated where
  name : String
  deriving Repr, DecidableEq

def Repeated.message (r : Repeated) : String :=
  "invalid Zip archive: Duplicate filename: " ++ r.name

/-- One more member at the end, if its name is not taken. -/
def add (members : List Member) (m : Member) : Except Repeated (List Member) :=
  if members.any (·.name == m.name) then .error ⟨m.name⟩ else .ok (members ++ [m])

end StableWheel.Archive
