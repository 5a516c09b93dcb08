import Mathlib.Data.Nat.Digits.Defs
import StableWheel.Interpreter.Locate
import StableWheel.Proofs.Text.Pieces
import StableWheel.Proofs.Text.Trimming

/-! Which texts are versions.

The two numbers are read by different rules: the first one fills its piece, apart from a plus sign,
and the second one is whatever digits its piece starts with (`Version.Spells`). What stands behind
these digits is free, so dots and blanks there need not be looked at (`Version.spells_iff`): this is
why a text stays the same version when something is put behind it.

A version for compilers is a number in hexadecimal digits (`Version.hexadecimal_hex`).

`Version.parse_spelled` puts it together: which texts are read and as what, how all others are
refused, and that a version comes back from its own text, with or without something behind it. -/
namespace StableWheel

/-! ### Numerals -/

namespace Decimal

/-- A run of ASCII digits, at least one, whose value by position is a given number. Zeros in front
are free. -/
structure Numeral (cs : List Char) (n : Nat) : Prop where
  filled : cs ≠ []
  digits : ∀ c ∈ cs, c.isDigit = true
  value : Nat.ofDigits 10 (cs.reverse.map fun c => c.toNat - '0'.toNat) = n

theorem isDigit_eq (c : Char) : isDigit c = c.isDigit := rfl

/-- Reading from the left gives the value by position. -/
theorem value_eq (cs : List Char) :
    value cs = Nat.ofDigits 10 (cs.reverse.map fun c => c.toNat - '0'.toNat) := by
  induction cs using List.reverseRecOn with
  | nil => rfl
  | append_singleton front last ih =>
    have hlast : value (front ++ [last]) = 10 * value front + digitValue last := by simp [value]
    rw [hlast, ih, List.reverse_append, List.reverse_singleton, List.singleton_append, List.map_cons,
      Nat.ofDigits_cons, Nat.add_comm]
    rfl

theorem octet?_eq_some_iff {cs : List Char} {n : UInt8} :
    octet? cs = some n ↔ Numeral cs n.toNat := by
  have hfits (k : Nat) : (k < 256 ∧ UInt8.ofNat k = n) ↔ k = n.toNat := by
    constructor
    · rintro ⟨hk, rfl⟩
      exact (UInt8.toNat_ofNat_of_lt' hk).symm
    · rintro rfl
      exact ⟨n.toNat_lt, UInt8.ofNat_toNat⟩
  have hcut : octet? cs = some n ↔
      cs ≠ [] ∧ (∀ c ∈ cs, c.isDigit = true) ∧ value cs < 256 ∧ UInt8.ofNat (value cs) = n := by
    simp only [octet?, value?, List.all_eq_true, isDigit_eq]
    split
    · next h =>
      simp only [Option.bind_some, Option.ite_none_right_eq_some, Option.some.injEq]
      exact ⟨fun hn => ⟨h.1, h.2, hn⟩, fun ⟨_, _, hn⟩ => hn⟩
    · next h => exact ⟨nofun, fun ⟨hne, hall, _⟩ => absurd ⟨hne, hall⟩ h⟩
  rw [hcut, hfits, value_eq]
  exact ⟨fun ⟨hne, hall, hvalue⟩ => ⟨hne, hall, hvalue⟩,
    fun h => ⟨h.filled, h.digits, h.value⟩⟩

/-- The digits of a number are a numeral for it. -/
theorem numeral_digits (n : Nat) : Numeral (digits n) n := by
  refine ⟨Nat.toDigits_ne_nil, fun c hc => ?_, ?_⟩
  · exact Nat.isDigit_of_mem_toDigits (by decide) (by decide) hc
  · rw [← value_eq]
    exact Nat.ofDigitChars_ten_toDigits

theorem Numeral.not_mem {cs : List Char} {n : Nat} (h : Numeral cs n) {c : Char}
    (hc : c.isDigit = false) : c ∉ cs :=
  fun hmem => Bool.false_ne_true (hc.symm.trans (h.digits c hmem))

/-- Digits are no blanks. -/
theorem isBlank_of_isDigit {c : Char} (h : c.isDigit = true) : Text.isBlank c = false := by
  rw [Char.isDigit, Bool.and_eq_true, decide_eq_true_eq, decide_eq_true_eq] at h
  have hlow : 48 ≤ c.toNat := UInt32.le_iff_toNat_le.mp h.1
  have hhigh : c.toNat ≤ 57 := UInt32.le_iff_toNat_le.mp h.2
  simp only [Text.isBlank, Bool.or_eq_false_iff, Bool.and_eq_false_iff, decide_eq_false_iff_not,
    beq_eq_false_iff_ne]
  omega

end Decimal

open Decimal (Numeral)

namespace Version

/-! ### The number for compilers -/

/-- The value of a hexadecimal digit. -/
def hexValue (c : Char) : Nat := "0123456789ABCDEF".toList.idxOf c

/-- A text is the number of a version for compilers: eight hexadecimal digits behind `0x`, with the
major number in the first byte, the minor number in the second one, and nothing in the others. -/
def Hexadecimal (v : Version) (s : String) : Prop :=
  ∃ cs, s.toList = '0' :: 'x' :: cs ∧ cs.length = 8 ∧
    (∀ c ∈ cs, c ∈ "0123456789ABCDEF".toList) ∧
    Nat.ofDigits 16 (cs.reverse.map hexValue) =
      v.major.toNat * 2 ^ 24 + v.minor.toNat * 2 ^ 16

theorem hexDigit_mem : ∀ n < 16, hexDigit n ∈ "0123456789ABCDEF".toList := by decide

theorem hexValue_hexDigit : ∀ n < 16, hexValue (hexDigit n) = n := by decide

/-- Two digits are what they stand for. -/
theorem hexPair_value (n : UInt8) (cs : List Char) :
    (∀ c ∈ hexPair n, c ∈ "0123456789ABCDEF".toList) ∧
      Nat.ofDigits 16 ((hexPair n ++ cs).reverse.map hexValue) =
        Nat.ofDigits 16 (cs.reverse.map hexValue) + 16 ^ cs.length * n.toNat := by
  have hn := n.toNat_lt
  have hhigh : n.toNat / 16 < 16 := by omega
  have hlow : n.toNat % 16 < 16 := by omega
  refine ⟨?_, ?_⟩
  · intro c hc
    rcases List.mem_pair.mp hc with rfl | rfl
    · exact hexDigit_mem _ hhigh
    · exact hexDigit_mem _ hlow
  · rw [List.reverse_append, List.map_append, Nat.ofDigits_append, List.length_map,
      List.length_reverse]
    simp only [hexPair, List.reverse_cons, List.reverse_nil, List.nil_append, List.cons_append,
      List.map_cons, List.map_nil, hexValue_hexDigit _ hhigh, hexValue_hexDigit _ hlow,
      Nat.ofDigits_cons, Nat.ofDigits_nil]
    rw [show n.toNat % 16 + 16 * (n.toNat / 16 + 16 * 0) = n.toNat by omega]

theorem hexadecimal_hex (v : Version) : v.Hexadecimal v.hex := by
  obtain ⟨hmajor, hmajorValue⟩ := hexPair_value v.major (hexPair v.minor ++ ['0', '0', '0', '0'])
  obtain ⟨hminor, hminorValue⟩ := hexPair_value v.minor ['0', '0', '0', '0']
  refine ⟨hexPair v.major ++ (hexPair v.minor ++ ['0', '0', '0', '0']), ?_, rfl, ?_, ?_⟩
  · simp [hex]
  · intro c hc
    rcases List.mem_append.mp hc with hc | hc
    · exact hmajor c hc
    · rcases List.mem_append.mp hc with hc | hc
      · exact hminor c hc
      · obtain rfl : c = '0' := by simpa using hc
        decide
  · have hzeros : Nat.ofDigits 16 (['0', '0', '0', '0'].reverse.map hexValue) = 0 := by decide
    rw [hmajorValue, hminorValue, hzeros]
    simp only [hexPair, List.length_append, List.length_cons, List.length_nil]
    omega

/-! ### What a text spells -/

/-- A text that does not go on with a digit. -/
def StopsDigits (cs : List Char) : Prop := ∀ c, cs.head? = some c → c.isDigit = false

theorem StopsDigits.append {a b : List Char} (ha : StopsDigits a) (hb : StopsDigits b) :
    StopsDigits (a ++ b) := by
  rcases a with _ | ⟨c, rest⟩
  · exact hb
  · exact ha

theorem StopsDigits.of_append {a b : List Char} (h : StopsDigits (a ++ b)) : StopsDigits a := by
  rcases a with _ | ⟨c, rest⟩
  · exact nofun
  · exact h

theorem stopsDigits_blanks {cs : List Char} (h : ∀ c ∈ cs, Text.isBlank c = true) :
    StopsDigits cs := by
  intro c hc
  by_contra hdigit
  have hplain := Decimal.isBlank_of_isDigit (Bool.eq_true_of_not_eq_false hdigit)
  exact Bool.false_ne_true (hplain.symm.trans (h c (List.mem_of_head? hc)))

/-- A number may carry a plus sign. -/
def IsSign (cs : List Char) : Prop := cs = [] ∨ cs = ['+']

/-- Without the blanks around it and cut at its dots, a text starts with a piece that is the major
number, with a sign or without, and a piece whose digits in front are the minor number. -/
def Spells (s : String) (v : Version) : Prop :=
  ∃ sign major minor behind more,
    (Text.trimmed s.toList).splitOn '.' = (sign ++ major) :: (minor ++ behind) :: more ∧
    IsSign sign ∧ Numeral major v.major.toNat ∧
    Numeral minor v.minor.toNat ∧ StopsDigits behind

/-- A number with its sign holds neither blanks nor dots. -/
theorem plain_of_number {sign major : List Char} {n : Nat} (hsign : IsSign sign)
    (hmajor : Numeral major n) : ∀ c ∈ sign ++ major, Text.isBlank c = false ∧ c ≠ '.' := by
  intro c hc
  rcases List.mem_append.mp hc with hc | hc
  · rcases hsign with rfl | rfl
    · cases hc
    · obtain rfl := List.mem_singleton.mp hc
      decide
  · exact ⟨Decimal.isBlank_of_isDigit (hmajor.digits c hc),
      fun hdot => hmajor.not_mem (by decide) (hdot ▸ hc)⟩

theorem readMajor_eq_some_iff {cs : List Char} {n : UInt8} :
    readMajor cs = some n ↔ ∃ sign ds, cs = sign ++ ds ∧ IsSign sign ∧ Numeral ds n.toNat := by
  unfold readMajor
  split
  · next rest =>
    rw [Decimal.octet?_eq_some_iff]
    constructor
    · exact fun h => ⟨['+'], rest, rfl, .inr rfl, h⟩
    · rintro ⟨sign, ds, hcs, rfl | rfl, h⟩
      · have hplus : '+' ∈ ds := by rw [← List.nil_append ds, ← hcs]; exact List.mem_cons_self ..
        exact absurd hplus (h.not_mem (by decide))
      · obtain rfl : rest = ds := by simpa using hcs
        exact h
  · next hplain =>
    rw [Decimal.octet?_eq_some_iff]
    constructor
    · exact fun h => ⟨[], cs, rfl, .inl rfl, h⟩
    · rintro ⟨sign, ds, rfl, rfl | rfl, h⟩
      · exact h
      · exact absurd rfl (hplain ds)

/-- The digits in front are the only run of digits in front that nothing makes longer. -/
theorem takeWhile_isDigit_eq_iff {cs ds : List Char} (hds : ∀ c ∈ ds, c.isDigit = true) :
    cs.takeWhile Decimal.isDigit = ds ↔ ∃ behind, cs = ds ++ behind ∧ StopsDigits behind := by
  constructor
  · rintro rfl
    refine ⟨cs.dropWhile Decimal.isDigit, List.takeWhile_append_dropWhile.symm, fun c hc => ?_⟩
    have hstop := List.head?_dropWhile_not Decimal.isDigit cs
    rw [hc] at hstop
    simpa [Decimal.isDigit_eq] using hstop
  · rintro ⟨behind, rfl, hstop⟩
    have hfront : ∀ c ∈ ds, Decimal.isDigit c = true := hds
    rw [List.takeWhile_append_of_pos hfront]
    rcases behind with _ | ⟨c, rest⟩
    · simp
    · simp [Decimal.isDigit_eq, hstop c rfl]

theorem readMinor_eq_some_iff {cs : List Char} {n : UInt8} :
    readMinor cs = some n ↔ ∃ ds behind, cs = ds ++ behind ∧ Numeral ds n.toNat ∧
      StopsDigits behind := by
  rw [readMinor, Decimal.octet?_eq_some_iff]
  constructor
  · intro h
    obtain ⟨behind, hcs, hstop⟩ := (takeWhile_isDigit_eq_iff h.digits).mp rfl
    exact ⟨_, behind, hcs, h, hstop⟩
  · rintro ⟨ds, behind, hcs, h, hstop⟩
    rwa [(takeWhile_isDigit_eq_iff h.digits).mpr ⟨behind, hcs, hstop⟩]

theorem parse?_eq_some_iff {s : String} {v : Version} : parse? s = some v ↔ Spells s v := by
  unfold parse? Spells
  split
  · next first second more hcut =>
    have hread : (do return (⟨← readMajor first, ← readMinor second⟩ : Version)) = some v ↔
        readMajor first = some v.major ∧ readMinor second = some v.minor := by
      obtain ⟨a, b⟩ := v
      cases readMajor first <;> cases readMinor second <;> simp
    rw [hread, readMajor_eq_some_iff, readMinor_eq_some_iff, hcut]
    constructor
    · rintro ⟨⟨sign, major, rfl, hsign, hmajor⟩, minor, behind, rfl, hminor, hstop⟩
      exact ⟨sign, major, minor, behind, more, rfl, hsign, hmajor, hminor, hstop⟩
    · rintro ⟨sign, major, minor, behind, _, heq, hsign, hmajor, hminor, hstop⟩
      obtain ⟨rfl, rfl, rfl⟩ : first = sign ++ major ∧ second = minor ++ behind ∧ more = _ := by
        simpa using heq
      exact ⟨⟨sign, major, rfl, hsign, hmajor⟩, minor, behind, rfl, hminor, hstop⟩
  · next hfew =>
    refine ⟨nofun, ?_⟩
    rintro ⟨sign, major, minor, behind, more, heq, -⟩
    exact absurd heq (hfew _ _ _)

/-! ### Without cutting -/

/-- Blanks are taken off in front of the first number, and behind the second one where nothing else
is. -/
theorem trimmed_of_numbers {before sign major minor : List Char} {n k : Nat}
    (hbefore : ∀ c ∈ before, Text.isBlank c = true) (hsign : IsSign sign) (hmajor : Numeral major n)
    (hminor : Numeral minor k) (rest : List Char) :
    Text.trimmed (before ++ (sign ++ major) ++ '.' :: (minor ++ rest)) =
      (sign ++ major) ++ '.' :: (minor ++ Text.trimEnd rest) := by
  have hfilled : sign ++ major ≠ [] := by simp [hmajor.filled]
  obtain ⟨last, hlast⟩ := Option.isSome_iff_exists.mp (List.getLast?_isSome.mpr hminor.filled)
  have hend := Decimal.isBlank_of_isDigit (hminor.digits last (List.mem_of_getLast? hlast))
  have hfront : Text.trimStart (before ++ (sign ++ major) ++ '.' :: (minor ++ rest)) =
      (sign ++ major ++ '.' :: minor) ++ rest := by
    rw [List.append_assoc, Text.trimStart_blanks hbefore, Text.trimStart_of_front]
    · simp
    · intro c hc
      rw [List.head?_append_of_ne_nil _ hfilled] at hc
      exact (plain_of_number hsign hmajor c (List.mem_of_head? hc)).1
  rw [Text.trimmed, hfront, Text.trimEnd_append (c := last) _ hend]
  · simp
  · simp [List.getLast?_append, List.getLast?_cons, hlast]

/-- What may follow the minor number is free but for its first character. Neither blanks nor dots
behind it matter. -/
theorem spells_iff {s : String} {v : Version} :
    Spells s v ↔ ∃ before sign major minor rest,
      s.toList = before ++ (sign ++ major) ++ '.' :: (minor ++ rest) ∧
      (∀ c ∈ before, Text.isBlank c = true) ∧ IsSign sign ∧
      Numeral major v.major.toNat ∧ Numeral minor v.minor.toNat ∧ StopsDigits rest := by
  constructor
  · rintro ⟨sign, major, minor, behind, more, hcut, hsign, hmajor, hminor, hstop⟩
    obtain ⟨before, after, hbefore, hafter, hs⟩ := Text.padded_trimmed s.toList
    obtain ⟨hnone, -⟩ | ⟨second, hinner, hsecond⟩ := Text.eq_of_splitOn_eq_cons hcut
    · cases hnone
    -- the second piece ends the text or goes on with a dot
    obtain ⟨tail, htail, hdot⟩ : ∃ tail, second = minor ++ behind ++ tail ∧ StopsDigits tail := by
      obtain ⟨-, hlast⟩ | ⟨third, hthird, -⟩ := Text.eq_of_splitOn_eq_cons hsecond
      · exact ⟨[], by simpa using hlast, nofun⟩
      · refine ⟨'.' :: third, hthird, fun c hc => ?_⟩
        obtain rfl : '.' = c := by simpa using hc
        decide
    refine ⟨before, sign, major, minor, behind ++ (tail ++ after), ?_, hbefore, hsign, hmajor,
      hminor, hstop.append (hdot.append (stopsDigits_blanks hafter))⟩
    rw [hs, hinner, htail]
    simp
  · rintro ⟨before, sign, major, minor, rest, hs, hbefore, hsign, hmajor, hminor, hstop⟩
    have hnumber := plain_of_number hsign hmajor
    have htrimmed : Text.trimmed s.toList =
        (sign ++ major) ++ '.' :: (minor ++ Text.trimEnd rest) := by
      rw [hs]
      exact trimmed_of_numbers hbefore hsign hmajor hminor rest
    have hkept : StopsDigits (Text.trimEnd rest) := by
      have hrest : Text.trimEnd rest ++ rest.rtakeWhile Text.isBlank = rest :=
        List.rdropWhile_append_rtakeWhile
      exact .of_append (hrest ▸ hstop)
    have hwhole : '.' ∉ sign ++ major := fun hmem => (hnumber '.' hmem).2 rfl
    obtain ⟨behind, more, hbehind⟩ := List.exists_cons_of_ne_nil
      (List.splitOn_ne_nil '.' (Text.trimEnd rest))
    refine ⟨sign, major, minor, behind, more, ?_, hsign, hmajor, hminor, ?_⟩
    · rw [htrimmed, List.splitOn_append_cons_self, List.splitOn_eq_singleton hwhole,
        Text.splitOn_append_of_not_mem (hminor.not_mem (by decide)), hbehind]
      rfl
    · obtain ⟨-, h⟩ | ⟨after, h, -⟩ := Text.eq_of_splitOn_eq_cons hbehind
      · rwa [← h]
      · exact .of_append (h ▸ hkept)

/-! ### Reading -/

theorem parse_eq_ok_iff {s : String} {v : Version} : parse s = .ok v ↔ Spells s v := by
  rw [← parse?_eq_some_iff, parse]
  cases parse? s <;> simp

/-- A text that is refused is named as it was given. -/
theorem parse_eq_error_iff {s : String} {e : InterpreterError} :
    parse s = .error e ↔ e = .badVersion s ∧ ∀ v, ¬ Spells s v := by
  simp only [← parse?_eq_some_iff, parse]
  cases parse? s <;> simp [eq_comm]

theorem spells_text (v : Version) : Spells v.text v :=
  spells_iff.mpr ⟨[], [], Decimal.digits v.major.toNat, Decimal.digits v.minor.toNat, [],
    by simp [text, Decimal.natural], nofun, .inl rfl, Decimal.numeral_digits _,
    Decimal.numeral_digits _, nofun⟩

/-- What is put behind a text that spells a version either stands behind the minor number at once,
or behind something that does. -/
theorem Spells.append {s rest : String} {v : Version} (h : Spells s v)
    (hrest : StopsDigits rest.toList) : Spells (s ++ rest) v := by
  obtain ⟨before, sign, major, minor, behind, hs, hbefore, hsign, hmajor, hminor, hstop⟩ :=
    spells_iff.mp h
  exact spells_iff.mpr ⟨before, sign, major, minor, behind ++ rest.toList, by simp [hs], hbefore,
    hsign, hmajor, hminor, hstop.append hrest⟩

/-- **A text is read as a version exactly when it spells this version, and any other text is refused
and named unchanged. A version comes back from its own text, and a text that is read as a version is
still read as this one with anything put behind it that does not start with a digit.** -/
theorem parse_spelled :
    (∀ s v, parse s = .ok v ↔ Spells s v) ∧
    (∀ s e, parse s = .error e ↔ e = .badVersion s ∧ ∀ v, ¬ Spells s v) ∧
    (∀ v, parse v.text = .ok v) ∧
    ∀ s v rest, parse s = .ok v → StopsDigits rest.toList → parse (s ++ rest) = .ok v :=
  ⟨fun _ _ => parse_eq_ok_iff, fun _ _ => parse_eq_error_iff,
    fun v => parse_eq_ok_iff.mpr (spells_text v),
    fun _ _ _ hs hrest => parse_eq_ok_iff.mpr ((parse_eq_ok_iff.mp hs).append hrest)⟩

/-- Numbers of more than eight bits are refused, zeros in front are not. -/
example : parse "256.1" = .error (.badVersion "256.1") ∧ parse "+0003.08" = .ok ⟨3, 8⟩ :=
  ⟨by rfl, by rfl⟩

/-- A release candidate is the version that it is a candidate for. -/
theorem parse_candidate : parse "3.13" = .ok ⟨3, 13⟩ ∧ StopsDigits "rc1".toList ∧
    parse "3.13rc1" = .ok ⟨3, 13⟩ := by
  have hplain : parse "3.13" = .ok ⟨3, 13⟩ := by rfl
  have hstop : StopsDigits "rc1".toList := by
    intro c hc
    obtain rfl : 'r' = c := by simpa using hc
    decide
  exact ⟨hplain, hstop, parse_spelled.2.2.2 _ _ _ hplain hstop⟩

end Version
end StableWheel
