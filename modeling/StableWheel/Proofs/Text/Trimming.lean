import Mathlib.Data.List.DropRight
import StableWheel.Text.Blank

/-! What trimming leaves.

Blanks are taken off at both ends and nothing else is, and all of them are: what is left neither
starts nor ends with one. There is only one such rest (`trimmed_eq_iff`), so a text that neither
starts nor ends with a blank stays as it is (`trimmed_of_tight`). -/
namespace StableWheel.Text

/-- Neither starts nor ends with a blank. -/
structure Tight (cs : List Char) : Prop where
  front : ∀ c, cs.head? = some c → isBlank c = false
  back : ∀ c, cs.getLast? = some c → isBlank c = false

theorem tight_nil : Tight [] := ⟨nofun, nofun⟩

theorem trimStart_of_front {cs : List Char} (h : ∀ c, cs.head? = some c → isBlank c = false) :
    trimStart cs = cs := by
  cases cs with
  | nil => rfl
  | cons c rest => simp [trimStart, h c rfl]

theorem trimEnd_of_back {cs : List Char} (h : ∀ c, cs.getLast? = some c → isBlank c = false) :
    trimEnd cs = cs :=
  List.rdropWhile_eq_self_iff.mpr fun hne => by
    simp [h _ (List.getLast?_eq_some_getLast hne)]

theorem trimStart_blanks {before : List Char} (h : ∀ c ∈ before, isBlank c = true)
    (cs : List Char) : trimStart (before ++ cs) = trimStart cs :=
  List.dropWhile_append_of_pos h

theorem trimEnd_blanks {after : List Char} (h : ∀ c ∈ after, isBlank c = true) (cs : List Char) :
    trimEnd (cs ++ after) = trimEnd cs := by
  have hback : ∀ c ∈ after.reverse, isBlank c = true := fun c hc => h c (List.mem_reverse.mp hc)
  rw [trimEnd, List.reverse_append, List.dropWhile_append_of_pos hback, trimEnd]

/-- What ends with something else than a blank stays whole, whatever follows. -/
theorem trimEnd_append {front : List Char} {c : Char} (hc : front.getLast? = some c)
    (hplain : isBlank c = false) (cs : List Char) : trimEnd (front ++ cs) = front ++ trimEnd cs := by
  have hfront : front.reverse.dropWhile isBlank = front.reverse := by
    obtain ⟨before, rfl⟩ := List.getLast?_eq_some_iff.mp hc
    simp [hplain]
  rw [trimEnd, trimEnd, List.reverse_append, List.dropWhile_append, hfront]
  split
  · next hnone => simp [List.isEmpty_iff.mp hnone]
  · simp

theorem trimmed_padded {before inner after : List Char} (hbefore : ∀ c ∈ before, isBlank c = true)
    (hafter : ∀ c ∈ after, isBlank c = true) (h : Tight inner) :
    trimmed (before ++ inner ++ after) = inner := by
  rw [trimmed, List.append_assoc, trimStart_blanks hbefore]
  rcases inner with _ | ⟨c, rest⟩
  · have hnone : trimStart after = [] := List.dropWhile_eq_nil_iff.mpr hafter
    rw [List.nil_append, hnone]
    rfl
  · rw [trimStart_of_front, trimEnd_blanks hafter, trimEnd_of_back h.back]
    simpa using h.front

theorem trimmed_of_tight {cs : List Char} (h : Tight cs) : trimmed cs = cs := by
  rw [trimmed, trimStart_of_front h.front, trimEnd_of_back h.back]

theorem tight_trimmed (cs : List Char) : Tight (trimmed cs) := by
  constructor
  · intro c hc
    -- trimming the end leaves the start alone, unless nothing is left
    obtain ⟨after, hafter⟩ : trimmed cs <+: trimStart cs := List.rdropWhile_prefix isBlank _
    have hfirst : (trimStart cs).head? = some c := by rw [← hafter, List.head?_append, hc]; rfl
    have hnot := List.head?_dropWhile_not isBlank cs
    rw [trimStart] at hfirst
    rwa [hfirst] at hnot
  · intro c hc
    obtain ⟨front, hfront⟩ := List.getLast?_eq_some_iff.mp hc
    have hne : trimmed cs ≠ [] := by simp [hfront]
    have hnot := List.rdropWhile_last_not isBlank (trimStart cs) hne
    have hlast : (trimmed cs).getLast hne = c :=
      Option.some.inj ((List.getLast?_eq_some_getLast hne).symm.trans hc)
    exact Bool.eq_false_iff.mpr (hlast ▸ hnot)

/-- What is taken off is blank. -/
theorem padded_trimmed (cs : List Char) :
    ∃ before after, (∀ c ∈ before, isBlank c = true) ∧ (∀ c ∈ after, isBlank c = true) ∧
      cs = before ++ trimmed cs ++ after := by
  refine ⟨cs.takeWhile isBlank, (trimStart cs).rtakeWhile isBlank,
    fun c hc => List.mem_takeWhile_imp hc, fun c hc => List.mem_rtakeWhile_imp hc, ?_⟩
  have hend : trimmed cs ++ (trimStart cs).rtakeWhile isBlank = trimStart cs :=
    List.rdropWhile_append_rtakeWhile
  rw [List.append_assoc, hend]
  exact List.takeWhile_append_dropWhile.symm

/-- There is one way to take all blanks off at both ends. -/
theorem trimmed_eq_iff {cs inner : List Char} :
    trimmed cs = inner ↔
      Tight inner ∧ ∃ before after, (∀ c ∈ before, isBlank c = true) ∧
        (∀ c ∈ after, isBlank c = true) ∧ cs = before ++ inner ++ after := by
  constructor
  · rintro rfl
    exact ⟨tight_trimmed cs, padded_trimmed cs⟩
  · rintro ⟨htight, before, after, hbefore, hafter, rfl⟩
    exact trimmed_padded hbefore hafter htight

theorem trim_of_tight {s : String} (h : Tight s.toList) : trim s = s := by
  rw [trim, trimmed_of_tight h, String.ofList_toList]

/-- Nothing is left of blanks only. -/
theorem trimmed_eq_nil_iff {s : String} : trimmed s.toList = [] ↔ allBlank s = true := by
  rw [trimmed_eq_iff, allBlank, List.all_eq_true]
  constructor
  · rintro ⟨-, before, after, hbefore, hafter, hs⟩ c hc
    rw [hs, List.append_nil] at hc
    exact (List.mem_append.mp hc).elim (hbefore c) (hafter c)
  · intro hblank
    exact ⟨tight_nil, s.toList, [], hblank, nofun, by simp⟩

theorem isEmpty_trim (s : String) : (trim s).isEmpty = allBlank s := by
  rw [Bool.eq_iff_iff, String.isEmpty_iff, ← String.toList_eq_nil_iff, trim_toList,
    trimmed_eq_nil_iff]

end StableWheel.Text
