import StableWheel.Glob.Search
import StableWheel.Proofs.Text.Pieces

/-! Texts in patterns that stand for themselves.

A text is escaped character by character, so its pieces are escaped one by one (`splitOn_escape`),
and the escaped form is read as one element for each character (`compile_escape`) that fits this
character only (`fits_literally`). -/
namespace StableWheel.Glob

/-- The element that an escaped character is read as. -/
def tokenOf (c : Char) : Token := if isSpecial c then .among [(c, c)] else .char c

/-- The elements that an escaped text is read as. -/
def literally (cs : List Char) : List Token := cs.map tokenOf

/-! ### Reading -/

theorem element_plain {c : Char} (h : isSpecial c = false) (position : Nat) (before : Option Char)
    (rest : List Char) : element position before c rest = .ok (.char c, 0) := by
  simp only [isSpecial, Bool.or_eq_false_iff, beq_eq_false_iff_ne, ne_eq] at h
  obtain ⟨⟨⟨hany, hrun⟩, hopen⟩, -⟩ := h
  simp [element, hany, hopen, hrun]

theorem readClass_escaped {c : Char} (h : isSpecial c = true) (rest : List Char) :
    readClass (c :: ']' :: rest) = some (.among [(c, c)], 2) := by
  have hc : c ≠ '!' := by rintro rfl; exact absurd h (by decide)
  unfold readClass
  split
  · next heq => exact absurd (List.cons.inj heq).1 hc
  · simp [classChars, rangesOf]

/-- The escaped form of a character is read as one element, whatever follows. -/
theorem compileFrom_escaped (c : Char) (position : Nat) (before : Option Char) (rest : List Char) :
    ∃ position' last,
      compileFrom 0 position before ((if isSpecial c then ['[', c, ']'] else [c]) ++ rest) =
        (compileFrom 0 position' (some last) rest).map (tokenOf c :: ·) := by
  rw [tokenOf]
  cases hspecial : isSpecial c with
  | false =>
    refine ⟨position + 1, c, ?_⟩
    rw [if_neg Bool.false_ne_true, if_neg Bool.false_ne_true, List.singleton_append, compileFrom,
      element_plain hspecial]
    rfl
  | true =>
    refine ⟨position + 3, ']', ?_⟩
    have hclass : element position before '[' ([c, ']'] ++ rest) =
        .ok (.among [(c, c)], 2) := by
      simp [element, readClass_escaped hspecial]
    rw [if_pos rfl, if_pos rfl, List.cons_append, compileFrom, hclass]
    rfl

theorem compileFrom_escape (cs : List Char) (position : Nat) (before : Option Char) :
    compileFrom 0 position before (escape cs) = .ok (literally cs) := by
  induction cs generalizing position before with
  | nil => rfl
  | cons c rest ih =>
    rw [escape, List.flatMap_cons, ← escape]
    obtain ⟨position', last, hread⟩ := compileFrom_escaped c position before (escape rest)
    rw [hread, ih]
    rfl

theorem compile_escape (cs : List Char) : compile (escape cs) = .ok (literally cs) :=
  compileFrom_escape cs 0 none

theorem element_char {c d : Char} {position skip : Nat} {before : Option Char} {rest : List Char}
    (h : element position before c rest = .ok (.char d, skip)) : c = d := by
  unfold element at h
  split at h
  · cases h
  split at h
  · unfold readClass at h
    split at h
    · next found hfound =>
      cases h
      split at hfound
      · obtain ⟨_, -, heq⟩ := Option.map_eq_some_iff.mp hfound
        cases heq
      · obtain ⟨_, -, heq⟩ := Option.map_eq_some_iff.mp hfound
        cases heq
    · cases h
  split at h
  · split at h
    · cases h
    · split at h
      · split at h
        · cases h
        · split at h <;> cases h
      · cases h
    · cases h
  · cases h
    rfl

/-- A character that stands for itself was in the text. -/
theorem mem_of_char_mem {d : Char} (cs : List Char) (skip position : Nat) (before : Option Char)
    {tokens : List Token} (h : compileFrom skip position before cs = .ok tokens)
    (hmem : Token.char d ∈ tokens) : d ∈ cs := by
  induction cs generalizing skip position before tokens with
  | nil =>
    rw [compileFrom] at h
    cases h
    cases hmem
  | cons c rest ih =>
    cases skip with
    | succ skip =>
      rw [compileFrom] at h
      exact List.mem_cons_of_mem _ (ih _ _ _ h hmem)
    | zero =>
      rw [compileFrom] at h
      cases helement : element position before c rest with
      | error e =>
        rw [helement] at h
        cases h
      | ok found =>
        obtain ⟨t, skip⟩ := found
        rw [helement] at h
        cases hrest : compileFrom skip (position + 1) (some c) rest with
        | error e =>
          simp only [bind, Except.bind, hrest] at h
          cases h
        | ok more =>
          simp only [bind, Except.bind, hrest] at h
          cases h
          rcases List.mem_cons.mp hmem with rfl | hmem
          · rw [element_char helement]
            exact List.mem_cons_self ..
          · exact List.mem_cons_of_mem _ (ih _ _ _ hrest hmem)

/-! ### Matching -/

theorem holds_single {c d : Char} : CharClass.holds [(c, c)] d = true ↔ d = c := by
  simp only [CharClass.holds, List.any_cons, List.any_nil, Bool.or_false, Bool.and_eq_true,
    decide_eq_true_eq]
  exact ⟨fun ⟨hle, hge⟩ => Char.le_antisymm hge hle, fun heq => by simp [heq]⟩

/-- A text that stands for itself fits nothing else. -/
theorem fits_literally {cs name : List Char} : fits (literally cs) name = true ↔ name = cs := by
  induction cs generalizing name with
  | nil => simp [literally, fits]
  | cons c rest ih =>
    rw [literally, List.map_cons, ← literally, tokenOf]
    cases name with
    | nil => split <;> simp [fits]
    | cons d name =>
      split
      · rw [fits, Bool.and_eq_true, holds_single, ih, List.cons.injEq]
      · rw [fits, Bool.and_eq_true, ih, List.cons.injEq, beq_iff_eq, eq_comm (a := c)]

theorem isDirectories_literally (cs : List Char) : isDirectories (literally cs) = false := by
  rw [isDirectories, List.contains_eq_mem, decide_eq_false_iff_not, literally, List.mem_map]
  rintro ⟨c, -, hc⟩
  rw [tokenOf] at hc
  split at hc <;> cases hc

theorem literal?_char_mem {tokens : List Token} {cs : List Char} (h : literal? tokens = some cs) :
    ∀ c ∈ cs, Token.char c ∈ tokens := by
  induction tokens generalizing cs with
  | nil =>
    cases h
    exact fun c hc => absurd hc List.not_mem_nil
  | cons t rest ih =>
    cases t with
    | char d =>
      rw [literal?, Option.map_eq_some_iff] at h
      obtain ⟨more, hmore, rfl⟩ := h
      intro c hc
      rcases List.mem_cons.mp hc with rfl | hc
      · exact List.mem_cons_self ..
      · exact List.mem_cons_of_mem _ (ih hmore c hc)
    | _ => cases h

theorem literal?_literally {cs ds : List Char} (h : literal? (literally cs) = some ds) : ds = cs := by
  induction cs generalizing ds with
  | nil =>
    cases h
    rfl
  | cons c rest ih =>
    rw [literally, List.map_cons, ← literally, tokenOf] at h
    split at h
    · cases h
    · rw [literal?, Option.map_eq_some_iff] at h
      obtain ⟨more, hmore, rfl⟩ := h
      rw [ih hmore]

/-! ### Pieces -/

theorem splitOn_escape (cs : List Char) :
    (escape cs).splitOn '/' = (cs.splitOn '/').map escape := by
  induction cs with
  | nil => rfl
  | cons c rest ih =>
    rw [escape, List.flatMap_cons, ← escape, List.splitOn_cons_eq_if_modifyHead]
    by_cases hc : c = '/'
    · subst hc
      have hplain : isSpecial '/' = false := by decide
      rw [hplain, if_neg Bool.false_ne_true, List.singleton_append,
        List.splitOn_cons_eq_if_modifyHead, ih]
      simp [escape]
    · have hfront : '/' ∉ (if isSpecial c then ['[', c, ']'] else [c]) := by
        split <;> simp [Ne.symm hc]
      have hother : (c == '/') = false := by simpa using hc
      rw [Text.splitOn_append_of_not_mem hfront, ih, hother]
      cases rest.splitOn '/' with
      | nil => rfl
      | cons first more => simp [escape]

end StableWheel.Glob
