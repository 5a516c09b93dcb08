import Mathlib.Data.String.Basic

/-! Texts in the order of their bytes.

The bytes of a character rise with it (`utf8EncodeChar_rises`), and no character starts with all the
bytes of another one, so texts stand in the same order as their bytes do (`bytes_lt_iff`), and one
opens another exactly if its bytes do (`bytes_prefix_iff`). -/
namespace StableWheel.Text

/-- The bytes of a text. -/
def bytes (s : String) : List UInt8 := s.toUTF8.data.toList

theorem bytes_eq (s : String) : bytes s = s.toList.flatMap String.utf8EncodeChar := by
  have hlist : ∀ cs : List Char, cs.utf8Encode = (cs.flatMap String.utf8EncodeChar).toByteArray :=
    fun _ => rfl
  rw [bytes, String.toUTF8_eq_toByteArray, ← String.utf8Encode_toList, hlist,
    List.data_toByteArray]

/-! ### Characters -/

/-- Numbers that differ do so at the first of four digits that is not the same. -/
theorem digits_rise {m n : Nat} (h : m < n) :
    m / 262144 < n / 262144 ∨ m / 262144 = n / 262144 ∧
      (m / 4096 % 64 < n / 4096 % 64 ∨ m / 4096 % 64 = n / 4096 % 64 ∧
        (m / 64 % 64 < n / 64 % 64 ∨ m / 64 % 64 = n / 64 % 64 ∧ m % 64 < n % 64)) := by
  have hdigit : ∀ {m n : Nat}, m < n → m / 64 < n / 64 ∨ m / 64 = n / 64 ∧ m % 64 < n % 64 := by
    omega
  have htwo : ∀ k, k / 4096 = k / 64 / 64 := fun k => (Nat.div_div_eq_div_mul k 64 64).symm
  have hthree : ∀ k, k / 262144 = k / 64 / 64 / 64 := fun k => by
    rw [Nat.div_div_eq_div_mul, Nat.div_div_eq_div_mul]
  rw [htwo, htwo, hthree, hthree]
  rcases hdigit h with h | ⟨heq, h⟩
  · rcases hdigit h with h | ⟨heq, h⟩
    · rcases hdigit h with h | ⟨heq, h⟩
      · exact .inl h
      · exact .inr ⟨heq, .inl h⟩
    · exact .inr ⟨by rw [heq], .inr ⟨by rw [heq], .inl h⟩⟩
  · exact .inr ⟨by rw [heq], .inr ⟨by rw [heq], .inr ⟨by rw [heq], h⟩⟩⟩

/-- Whatever follows, the bytes of the lower character come first. -/
theorem utf8EncodeChar_rises {c d : Char} (h : c < d) (cs ds : List UInt8) :
    String.utf8EncodeChar c ++ cs < String.utf8EncodeChar d ++ ds := by
  have hlt : c.val.toNat < d.val.toNat := UInt32.lt_iff_toNat_lt.mp (Char.lt_def.mp h)
  have hlast : d.val.toNat < 0x110000 := by
    rcases d.valid with hlow | ⟨-, hhigh⟩
    · exact Nat.lt_trans hlow (by decide)
    · exact hhigh
  have hdigits := digits_rise hlt
  rw [String.utf8EncodeChar.eq_1 c, String.utf8EncodeChar.eq_1 d]
  generalize c.val.toNat = m at hlt hdigits ⊢
  generalize d.val.toNat = n at hlt hlast hdigits ⊢
  -- by the number of bytes; where it is the same, the first byte that differs decides
  split_ifs <;>
    simp (disch := omega) only [List.cons_append, List.nil_append, List.cons_lt_cons_iff,
      UInt8.lt_iff_toNat_lt, ← UInt8.toNat_inj, UInt8.toNat_ofNat', Nat.mod_eq_of_lt] <;>
    omega

theorem utf8EncodeChar_ne_nil (c : Char) : String.utf8EncodeChar c ≠ [] := by
  rw [String.utf8EncodeChar.eq_1]
  split_ifs <;> simp

/-! ### Texts -/

theorem flatMap_utf8EncodeChar_lt {cs ds : List Char} (h : cs < ds) :
    cs.flatMap String.utf8EncodeChar < ds.flatMap String.utf8EncodeChar := by
  induction cs generalizing ds with
  | nil =>
    cases ds with
    | nil => exact absurd h (List.not_lt_nil _)
    | cons d ds =>
      rw [List.flatMap_nil, List.flatMap_cons]
      obtain ⟨b, rest, hb⟩ := List.exists_cons_of_ne_nil (utf8EncodeChar_ne_nil d)
      rw [hb]
      exact List.nil_lt_cons b _
  | cons c cs ih =>
    cases ds with
    | nil => exact absurd h (List.not_lt_nil _)
    | cons d ds =>
      rw [List.flatMap_cons, List.flatMap_cons]
      rcases List.cons_lt_cons_iff.mp h with hlt | ⟨rfl, hrest⟩
      · exact utf8EncodeChar_rises hlt _ _
      · exact List.append_left_lt (ih hrest)

/-- The order of texts is the order of their bytes. -/
theorem bytes_lt_iff {a b : String} : bytes a < bytes b ↔ a < b := by
  have hrises : ∀ {a b : String}, a < b → bytes a < bytes b := fun h => by
    rw [bytes_eq, bytes_eq]
    exact flatMap_utf8EncodeChar_lt (String.lt_iff.mp h)
  refine ⟨fun h => ?_, hrises⟩
  rcases lt_trichotomy a b with hlt | rfl | hgt
  · exact hlt
  · exact absurd h (List.lt_irrefl _)
  · exact absurd (hrises hgt) (List.lt_asymm h)

theorem flatMap_utf8EncodeChar_prefix_iff {cs ds : List Char} :
    cs.flatMap String.utf8EncodeChar <+: ds.flatMap String.utf8EncodeChar ↔ cs <+: ds := by
  induction cs generalizing ds with
  | nil => simp
  | cons c cs ih =>
    cases ds with
    | nil => simp
    | cons d ds =>
      rw [List.flatMap_cons, List.flatMap_cons, List.cons_prefix_cons]
      rcases lt_trichotomy c d with hlt | rfl | hgt
      · refine iff_of_false ?_ fun h => hlt.ne h.1
        rintro ⟨rest, hrest⟩
        have hrises := utf8EncodeChar_rises hlt (cs.flatMap String.utf8EncodeChar ++ rest)
          (ds.flatMap String.utf8EncodeChar)
        rw [← List.append_assoc, hrest] at hrises
        exact List.lt_irrefl _ hrises
      · rw [List.prefix_append_right_inj, ih]
        simp
      · refine iff_of_false ?_ fun h => hgt.ne h.1.symm
        rintro ⟨rest, hrest⟩
        have hrises := utf8EncodeChar_rises hgt (ds.flatMap String.utf8EncodeChar)
          (cs.flatMap String.utf8EncodeChar ++ rest)
        rw [← List.append_assoc, hrest] at hrises
        exact List.lt_irrefl _ hrises

/-- Comparing the first bytes is comparing the first characters, even where a character is cut. -/
theorem bytes_prefix_iff {a b : String} : bytes a <+: bytes b ↔ a.toList <+: b.toList := by
  rw [bytes_eq, bytes_eq, flatMap_utf8EncodeChar_prefix_iff]

end StableWheel.Text
