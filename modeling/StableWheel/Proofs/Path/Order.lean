import Mathlib.Data.List.Basic
import StableWheel.Path

/-! The order of paths.

Paths are ordered by their components, and components by their kind and then their text. Sorted
paths rise strictly (`sorted_rising`), and each of the paths is among them by its components
(`exists_mem_sorted`). -/
namespace StableWheel.Path

theorem Component.eq_of_text {a b : Component} (hrank : a.rank = b.rank) (htext : a.text = b.text) :
    a = b := by
  cases a <;> cases b <;> first | rfl | exact congrArg name htext | nomatch hrank

instance : Std.TransOrd Component :=
  inferInstanceAs (Std.TransCmp (compareLex (compareOn Component.rank) (compareOn Component.text)))

instance : Std.LawfulEqOrd Component where
  eq_of_compare h := by
    obtain ⟨hrank, htext⟩ := compareLex_eq_eq.mp h
    exact Component.eq_of_text (Std.LawfulEqCmp.eq_of_compare hrank)
      (Std.LawfulEqCmp.eq_of_compare htext)

/-- A path comes before another one. -/
def Before (p q : Path) : Prop := compare p.components q.components = .lt

instance (p q : Path) : Decidable (p.Before q) :=
  inferInstanceAs (Decidable (compare p.components q.components = .lt))

theorem same_iff {p q : Path} : p.same q = true ↔ p.components = q.components := by
  rw [same, beq_iff_eq]

theorem le_trans {p q r : Path} (h : p.le q = true) (h' : q.le r = true) : p.le r = true :=
  Std.TransCmp.isLE_trans h h'

theorem le_total (p q : Path) : (p.le q || q.le p) = true := by
  have hswap : compare q.components p.components = (compare p.components q.components).swap :=
    Std.OrientedCmp.eq_swap
  rw [le, le, hswap]
  cases compare p.components q.components <;> rfl

theorem same_of_le {p q : Path} (h : p.le q = true) (h' : q.le p = true) : p.same q = true :=
  same_iff.mpr (Std.LawfulEqCmp.eq_of_compare (Std.OrientedCmp.isLE_antisymm h h'))

theorem before_of_le {p q : Path} (h : p.le q = true) (hne : p.same q ≠ true) : p.Before q := by
  unfold Before
  rw [le] at h
  cases hcmp : compare p.components q.components with
  | lt => rfl
  | eq => exact absurd (same_iff.mpr (Std.LawfulEqCmp.eq_of_compare hcmp)) hne
  | gt => rw [hcmp] at h; cases h

theorem le_of_before {p q : Path} (h : p.Before q) : p.le q = true := by
  rw [le, h]
  rfl

theorem Before.not_same {p q : Path} (h : p.Before q) : p.same q ≠ true := by
  intro hsame
  rw [Before, same_iff.mp hsame] at h
  exact absurd (h.symm.trans Std.ReflCmp.compare_self) nofun

theorem Before.of_le {p q r : Path} (h : p.Before q) (h' : q.le r = true) : p.Before r :=
  Std.TransCmp.lt_of_lt_of_isLE h h'

/-! ### Lists -/

theorem mem_of_mem_dropRepeats {ps : List Path} {p : Path} (h : p ∈ dropRepeats ps) : p ∈ ps := by
  induction ps using dropRepeats.induct with
  | case1 => rwa [dropRepeats] at h
  | case2 q => rwa [dropRepeats] at h
  | case3 q q' rest hsame ih =>
    rw [dropRepeats, if_pos hsame] at h
    rcases List.mem_cons.mp (ih h) with rfl | h
    · exact List.mem_cons_self ..
    · exact List.mem_cons_of_mem _ (List.mem_cons_of_mem _ h)
  | case4 q q' rest hsame ih =>
    rw [dropRepeats, if_neg hsame] at h
    rcases List.mem_cons.mp h with rfl | h
    · exact List.mem_cons_self ..
    · exact List.mem_cons_of_mem _ (ih h)

theorem mem_of_mem_sorted {ps : List Path} {p : Path} (h : p ∈ sorted ps) : p ∈ ps :=
  List.mem_mergeSort.mp (mem_of_mem_dropRepeats h)

theorem exists_mem_dropRepeats {ps : List Path} {p : Path} (h : p ∈ ps) :
    ∃ q ∈ dropRepeats ps, q.same p = true := by
  induction ps using dropRepeats.induct generalizing p with
  | case1 => cases h
  | case2 q =>
    rw [dropRepeats]
    exact ⟨p, h, same_iff.mpr rfl⟩
  | case3 q q' rest hsame ih =>
    rw [dropRepeats, if_pos hsame]
    rcases List.mem_cons.mp h with rfl | h
    · exact ih (List.mem_cons_self ..)
    · rcases List.mem_cons.mp h with rfl | h
      · obtain ⟨first, hfirst, heq⟩ := ih (List.mem_cons_self ..)
        exact ⟨first, hfirst, same_iff.mpr ((same_iff.mp heq).trans (same_iff.mp hsame))⟩
      · exact ih (List.mem_cons_of_mem _ h)
  | case4 q q' rest hsame ih =>
    rw [dropRepeats, if_neg hsame]
    rcases List.mem_cons.mp h with rfl | h
    · exact ⟨p, List.mem_cons_self .., same_iff.mpr rfl⟩
    · obtain ⟨other, hother, heq⟩ := ih h
      exact ⟨other, List.mem_cons_of_mem _ hother, heq⟩

/-- Each path is there by its components. -/
theorem exists_mem_sorted {ps : List Path} {p : Path} (h : p ∈ ps) :
    ∃ q ∈ sorted ps, q.same p = true :=
  exists_mem_dropRepeats (List.mem_mergeSort.mpr h)

theorem dropRepeats_rising {ps : List Path} (h : ps.Pairwise fun p q => p.le q = true) :
    (dropRepeats ps).Pairwise Before := by
  induction ps using dropRepeats.induct with
  | case1 =>
    rw [dropRepeats]
    exact .nil
  | case2 q =>
    rw [dropRepeats]
    exact List.pairwise_singleton _ _
  | case3 q q' rest hsame ih =>
    rw [dropRepeats, if_pos hsame]
    obtain ⟨hfirst, hrest⟩ := List.pairwise_cons.mp h
    exact ih (List.pairwise_cons.mpr ⟨fun r hr => hfirst r (List.mem_cons_of_mem _ hr),
      (List.pairwise_cons.mp hrest).2⟩)
  | case4 q q' rest hsame ih =>
    rw [dropRepeats, if_neg hsame]
    obtain ⟨hfirst, hrest⟩ := List.pairwise_cons.mp h
    have hbefore : q.Before q' := before_of_le (hfirst q' (List.mem_cons_self ..)) hsame
    refine List.pairwise_cons.mpr ⟨fun r hr => ?_, ih hrest⟩
    rcases List.mem_cons.mp (mem_of_mem_dropRepeats hr) with rfl | hr
    · exact hbefore
    · exact hbefore.of_le ((List.pairwise_cons.mp hrest).1 r hr)

theorem mergeSort_rising (ps : List Path) :
    (ps.mergeSort le).Pairwise fun p q => p.le q = true :=
  @List.pairwise_mergeSort Path le (fun _ _ _ h h' => le_trans h h') le_total ps

/-- Sorted paths rise strictly, so none is there twice. -/
theorem sorted_rising (ps : List Path) : (sorted ps).Pairwise Before :=
  dropRepeats_rising (mergeSort_rising ps)

/-- Paths that rise strictly are sorted, and none is there twice. -/
theorem sorted_of_rising {ps : List Path} (h : ps.Pairwise Before) : sorted ps = ps := by
  rw [sorted, List.mergeSort_of_pairwise (h.imp le_of_before)]
  induction ps using dropRepeats.induct with
  | case1 => rw [dropRepeats]
  | case2 q => rw [dropRepeats]
  | case3 q q' rest hsame ih =>
    exact absurd hsame ((List.pairwise_cons.mp h).1 q' (List.mem_cons_self ..)).not_same
  | case4 q q' rest hsame ih => rw [dropRepeats, if_neg hsame, ih (List.pairwise_cons.mp h).2]

end StableWheel.Path
