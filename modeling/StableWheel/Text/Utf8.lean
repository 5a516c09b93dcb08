/-! Reading bytes as UTF-8.

A text file is read strictly: one bad byte and there is no text. What a program
prints is read leniently: each maximal run of bytes that starts a character
without finishing it becomes one replacement character.

Both readings walk the bytes once with a `Pending` character between steps. -/
namespace StableWheel.Text.Utf8

/-- A character whose first bytes have been read. -/
structure Pending where
  /-- The bits gathered so far. -/
  value : Nat
  /-- How many continuation bytes are still due. -/
  due : Nat
  /-- The least next byte that keeps the character in range. -/
  least : Nat
  /-- The greatest next byte that keeps the character in range. -/
  greatest : Nat
  deriving Repr, DecidableEq

/-- What one byte at the start of a character means. -/
inductive Lead where
  | whole (c : Char)
  | opens (p : Pending)
  | bad
  deriving Repr, DecidableEq

/-- The table of well-formed first bytes. Overlong forms, surrogates and code points
past the last one are excluded by the bounds on the second byte. -/
def lead (b : UInt8) : Lead :=
  let n := b.toNat
  if n < 0x80 then .whole (Char.ofNat n)
  else if n < 0xc2 then .bad
  else if n < 0xe0 then .opens ⟨n - 0xc0, 1, 0x80, 0xbf⟩
  else if n = 0xe0 then .opens ⟨0, 2, 0xa0, 0xbf⟩
  else if n = 0xed then .opens ⟨0xd, 2, 0x80, 0x9f⟩
  else if n < 0xf0 then .opens ⟨n - 0xe0, 2, 0x80, 0xbf⟩
  else if n = 0xf0 then .opens ⟨0, 3, 0x90, 0xbf⟩
  else if n < 0xf4 then .opens ⟨n - 0xf0, 3, 0x80, 0xbf⟩
  else if n = 0xf4 then .opens ⟨4, 3, 0x80, 0x8f⟩
  else .bad

/-- Whether a byte may come next. -/
def Pending.accepts (p : Pending) (b : UInt8) : Bool :=
  p.least ≤ b.toNat && b.toNat ≤ p.greatest

/-- One more continuation byte; only the second byte of a character has narrow bounds. -/
def Pending.push (p : Pending) (b : UInt8) : Pending :=
  ⟨p.value * 64 + (b.toNat - 0x80), p.due - 1, 0x80, 0xbf⟩

/-- Stands for bytes that are no character. -/
def replacement : Char := Char.ofNat 0xfffd

/-- The lenient reading, from the middle of a character if one is pending. -/
def readLenient : Option Pending → List UInt8 → List Char
  | none, [] => []
  | some _, [] => [replacement]
  | none, b :: rest =>
    match lead b with
    | .whole c => c :: readLenient none rest
    | .opens p => readLenient (some p) rest
    | .bad => replacement :: readLenient none rest
  | some p, b :: rest =>
    if p.accepts b then
      if p.due ≤ 1 then Char.ofNat (p.push b).value :: readLenient none rest
      else readLenient (some (p.push b)) rest
    else
      match lead b with
      | .whole c => replacement :: c :: readLenient none rest
      | .opens q => replacement :: readLenient (some q) rest
      | .bad => replacement :: replacement :: readLenient none rest

/-- What bytes say, with a replacement character wherever they say nothing. -/
def lenient (bytes : ByteArray) : String := String.ofList (readLenient none bytes.toList)

/-- What bytes say, if every one of them belongs to a character. -/
def strict? (bytes : ByteArray) : Option String := String.fromUTF8? bytes

/-- The bytes of a text say that text. -/
theorem strict_toUTF8 (s : String) : strict? s.toUTF8 = some s := by
  unfold strict? String.fromUTF8?
  rw [String.toUTF8_eq_toByteArray, dif_pos s.isValidUTF8]
  rfl

end StableWheel.Text.Utf8
