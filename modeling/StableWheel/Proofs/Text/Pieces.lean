import Mathlib.Data.List.Basic
import Mathlib.Data.List.TakeWhile
import StableWheel.Text.Split

/-! Pieces of texts that were put together with a separator.

Cutting undoes putting together wherever the separator was put in (`pieces_append`), and a text
stays in one piece exactly when it does not hold the separator (`pieces_eq_singleton_iff`). Where
only the first separators count, a cut is told by what stands before it (`cutThree_eq_iff`). -/
namespace StableWheel.Text

variable {separator : Char}

theorem pieces_ne_nil (s : String) : pieces separator s ≠ [] := by
  simp [pieces, List.splitOn_ne_nil]

theorem pieces_of_not_mem {s : String} (h : separator ∉ s.toList) : pieces separator s = [s] := by
  simp [pieces, List.splitOn_eq_singleton h]

/-- A piece holds no separator, and nothing that was not there before. -/
theorem of_mem_splitOn {cs piece : List Char} (h : piece ∈ cs.splitOn separator) :
    separator ∉ piece ∧ ∀ c ∈ piece, c ∈ cs := by
  induction cs generalizing piece with
  | nil => simp_all
  | cons first rest ih =>
    rw [List.splitOn_cons_eq_if_modifyHead] at h
    split at h
    · rcases List.mem_cons.mp h with rfl | h
      · simp
      · exact ⟨(ih h).1, fun c hc => List.mem_cons_of_mem _ ((ih h).2 c hc)⟩
    · next hother =>
      rcases hpieces : rest.splitOn separator with _ | ⟨next, others⟩
      · exact absurd hpieces (List.splitOn_ne_nil _ _)
      rw [hpieces] at h ih
      rcases List.mem_cons.mp h with rfl | h
      · obtain ⟨hnone, hall⟩ := ih (List.mem_cons_self ..)
        refine ⟨fun hmem => ?_, fun c hc => ?_⟩
        · rcases List.mem_cons.mp hmem with rfl | hmem
          · simp at hother
          · exact hnone hmem
        · rcases List.mem_cons.mp hc with rfl | hc
          · exact List.mem_cons_self ..
          · exact List.mem_cons_of_mem _ (hall c hc)
      · obtain ⟨hnone, hall⟩ := ih (List.mem_cons_of_mem _ h)
        exact ⟨hnone, fun c hc => List.mem_cons_of_mem _ (hall c hc)⟩

/-- What holds no separator only makes the first piece longer. -/
theorem splitOn_append_of_not_mem {front : List Char} (h : separator ∉ front) (cs : List Char) :
    (front ++ cs).splitOn separator = (cs.splitOn separator).modifyHead (front ++ ·) := by
  induction front with
  | nil =>
    cases hpieces : cs.splitOn separator with
    | nil => exact absurd hpieces (List.splitOn_ne_nil _ _)
    | cons first rest => simp [hpieces]
  | cons c rest ih =>
    have hc : c ≠ separator := fun heq => h (by rw [heq]; exact List.mem_cons_self ..)
    rw [List.cons_append, List.splitOn_cons_eq_if_modifyHead, if_neg (by simpa using hc),
      ih fun hmem => h (List.mem_cons_of_mem _ hmem), List.modifyHead_modifyHead]
    rfl

/-- The first piece and the others put together again. -/
theorem eq_of_splitOn_eq_cons {cs first : List Char} {more : List (List Char)}
    (h : cs.splitOn separator = first :: more) :
    more = [] ∧ cs = first ∨
      ∃ rest, cs = first ++ separator :: rest ∧ rest.splitOn separator = more := by
  have hwhole : [separator].intercalate (cs.splitOn separator) = cs :=
    List.intercalate_splitOn separator
  have hplain : ∀ piece ∈ first :: more, separator ∉ piece := fun piece hpiece =>
    (of_mem_splitOn (h ▸ hpiece)).1
  rw [h] at hwhole
  rcases more with _ | ⟨second, more⟩
  · exact .inl ⟨rfl, by simpa using hwhole.symm⟩
  · refine .inr ⟨[separator].intercalate (second :: more), ?_, ?_⟩
    · rw [← hwhole, List.intercalate_cons_cons]
      simp
    · exact List.splitOn_intercalate separator
        (fun piece hpiece => hplain piece (List.mem_cons_of_mem _ hpiece)) (List.cons_ne_nil _ _)

/-- A separator between two texts is where the pieces of the one end and those of the other
start. -/
theorem pieces_append (a b : String) :
    pieces separator (a ++ String.singleton separator ++ b) =
      pieces separator a ++ pieces separator b := by
  have hcut := List.splitOn_append_cons_self (a := separator) a.toList b.toList
  simp [pieces, hcut]

theorem pieces_eq_singleton_iff {s : String} :
    pieces separator s = [s] ↔ separator ∉ s.toList := by
  refine ⟨fun h hmem => ?_, pieces_of_not_mem⟩
  obtain ⟨before, after, hs⟩ := List.append_of_mem hmem
  have hcut : s = String.ofList before ++ String.singleton separator ++ String.ofList after :=
    String.toList_inj.mp (by simp [hs])
  rw [hcut, pieces_append] at h
  have hlength := congrArg List.length h
  have hfilled (t : String) : 0 < (pieces separator t).length :=
    List.length_pos_iff.mpr (pieces_ne_nil t)
  have hbefore := hfilled (String.ofList before)
  have hafter := hfilled (String.ofList after)
  simp only [List.length_append, List.length_singleton] at hlength
  omega

/-- Cutting undoes putting together texts that do not hold the separator. -/
theorem pieces_join {first : String} {rest : List String}
    (h : ∀ part ∈ first :: rest, separator ∉ part.toList) :
    pieces separator (join (String.singleton separator) (first :: rest)) = first :: rest := by
  induction rest generalizing first with
  | nil => exact pieces_of_not_mem (h first (List.mem_cons_self ..))
  | cons second rest ih =>
    have hjoin : join (String.singleton separator) (first :: second :: rest) =
        first ++ String.singleton separator ++
          join (String.singleton separator) (second :: rest) := by
      simp [join, String.intercalate_cons_cons]
    rw [hjoin, pieces_append, pieces_of_not_mem (h first (List.mem_cons_self ..)),
      ih fun part hpart => h part (List.mem_cons_of_mem _ hpart)]
    rfl

/-! ### Cuts -/

/-- A cut is at the first separator. -/
theorem cutFirst_eq_some_iff {cs first rest : List Char} :
    cutFirst separator cs = (first, some rest) ↔
      separator ∉ first ∧ cs = first ++ separator :: rest := by
  have hfront : separator ∉ cs.takeWhile (· != separator) := fun hmem => by
    simpa using List.mem_takeWhile_imp hmem
  constructor
  · intro h
    unfold cutFirst at h
    split at h
    · cases h
    · next c rest' hdrop =>
      cases h
      have hc := List.head?_dropWhile_not (· != separator) cs
      rw [hdrop] at hc
      obtain rfl : c = separator := by simpa using hc
      exact ⟨hfront, by rw [← hdrop, List.takeWhile_append_dropWhile]⟩
  · rintro ⟨hnone, rfl⟩
    have hall : ∀ c ∈ first, (c != separator) = true := fun c hc => by
      simpa using fun heq : c = separator => hnone (heq ▸ hc)
    simp [cutFirst, List.dropWhile_append_of_pos hall, List.takeWhile_append_of_pos hall]

/-- Three pieces come from two cuts, and only the last one may hold further separators. -/
theorem cutThree_eq_iff {cs first second third : List Char} :
    cutThree separator cs = [first, second, third] ↔
      separator ∉ first ∧ separator ∉ second ∧
        cs = first ++ separator :: (second ++ separator :: third) := by
  constructor
  · intro h
    unfold cutThree at h
    split at h
    · cases h
    · next hfirst =>
      split at h
      · cases h
      · next hsecond =>
        cases h
        obtain ⟨hnone, rfl⟩ := cutFirst_eq_some_iff.mp hfirst
        obtain ⟨hnone', rfl⟩ := cutFirst_eq_some_iff.mp hsecond
        exact ⟨hnone, hnone', rfl⟩
  · rintro ⟨hnone, hnone', rfl⟩
    rw [cutThree, cutFirst_eq_some_iff.mpr ⟨hnone, rfl⟩]
    dsimp only
    rw [cutFirst_eq_some_iff.mpr ⟨hnone', rfl⟩]

end StableWheel.Text
