import Mathlib.Data.List.Induction
import StableWheel.Proofs.Path.Components

/-! Longer and shorter texts of one path.

What is joined to a path follows a single separator, so a path that is put together from the pieces
of another one has the same steps and is not longer (`Shorter`, `shorter_pieces`). Empty names among
the pieces count at the end only (`extend_idle`). -/
namespace StableWheel

namespace Path

variable {p q : Path} {name : String}

theorem isEmpty_of_absolute (h : p.isAbsolute = true) : p.isEmpty = false := by
  rw [isEmpty, String.isEmpty_eq_false_iff]
  rintro htext
  rw [isAbsolute, htext] at h
  cases h

theorem isAbsolute_name (h : '/' ∉ name.toList) : (Path.mk name).isAbsolute = false := by
  have hfirst : name.toList.head? ≠ some '/' := fun hhead => h (List.mem_of_mem_head? hhead)
  simpa [isAbsolute] using hfirst

/-- A name follows a separator, which is there already or is put in. -/
theorem text_join (hp : p.isAbsolute = true) (hname : '/' ∉ name.toList) :
    (p.join ⟨name⟩).text = p.text ++ (if Step.wantsDirectory p then "" else "/") ++ name := by
  rw [join, isAbsolute_name hname, isEmpty_of_absolute hp, Bool.or_false, if_neg Bool.false_ne_true,
    ← Step.wantsDirectory]
  split <;> simp

theorem wantsDirectory_join_name (hp : p.isAbsolute = true) (hname : '/' ∉ name.toList) :
    Step.wantsDirectory (p.join ⟨name⟩) = name.isEmpty := by
  by_cases hempty : name = ""
  · subst hempty
    have hend : (p.join ⟨""⟩).text.toList.getLast? = some '/' := by
      rw [text_join hp hname]
      cases h : Step.wantsDirectory p with
      | true => simpa [Step.wantsDirectory] using h
      | false => simp
    rw [Step.wantsDirectory, hend]
    rfl
  · have hfilled : name.isEmpty = false := by simpa using hempty
    rw [Step.wantsDirectory_join p hfilled, hfilled]
    have hlast : name.toList.getLast? ≠ some '/' := fun hend => hname (List.mem_of_mem_getLast? hend)
    simpa [Step.wantsDirectory] using hlast

/-- A separator at the end is the one that the next name follows. -/
theorem join_join_empty (hp : p.isAbsolute = true) (hname : '/' ∉ name.toList) :
    (p.join ⟨""⟩).join ⟨name⟩ = p.join ⟨name⟩ := by
  have hend : Step.wantsDirectory (p.join ⟨""⟩) = true := wantsDirectory_join_name hp (by simp)
  have htext : ((p.join ⟨""⟩).join ⟨name⟩).text = (p.join ⟨name⟩).text := by
    rw [text_join (isAbsolute_join_left hp) hname, hend, text_join hp (by simp), text_join hp hname]
    simp
  exact congrArg Path.mk htext

theorem extend_concat (p : Path) (parts : List String) (name : String) :
    p.extend (parts ++ [name]) = (p.extend parts).join ⟨name⟩ := by
  rw [extend_append]
  rfl

theorem isAbsolute_extend (hp : p.isAbsolute = true) (parts : List String) :
    (p.extend parts).isAbsolute = true := by
  induction parts using List.reverseRecOn with
  | nil => exact hp
  | append_singleton parts name ih =>
    rw [extend_concat]
    exact isAbsolute_join_left ih

theorem components_extend (hp : p.isAbsolute = true) {parts : List String}
    (hparts : ∀ part ∈ parts, '/' ∉ part.toList) :
    (p.extend parts).components = p.components ++ parts.flatMap fun part => stepsIn part.toList := by
  induction parts using List.reverseRecOn with
  | nil => simp [extend]
  | append_singleton parts name ih =>
    have habsolute := isAbsolute_extend hp parts
    rw [extend_concat, components_join (isEmpty_of_absolute habsolute)
      (isAbsolute_name (hparts name (by simp))),
      ih fun part hpart => hparts part (List.mem_append_left _ hpart)]
    simp

/-- Names that are empty only count at the end, where they leave a separator. -/
theorem extend_idle (hp : p.isAbsolute = true) {parts : List String}
    (hparts : ∀ part ∈ parts, '/' ∉ part.toList) :
    p.extend parts = if parts.getLast? = some "" then (p.extend (parts.filter (· ≠ ""))).join ⟨""⟩
      else p.extend (parts.filter (· ≠ "")) := by
  induction parts using List.reverseRecOn with
  | nil => simp
  | append_singleton parts name ih =>
    have hname := hparts name (by simp)
    have hrest := ih fun part hpart => hparts part (List.mem_append_left _ hpart)
    -- whether or not there is a separator at the end, the name follows one
    have hjoin : (p.extend parts).join ⟨name⟩ =
        (p.extend (parts.filter (· ≠ ""))).join ⟨name⟩ := by
      rw [hrest]
      split
      · exact join_join_empty (isAbsolute_extend hp _) hname
      · rfl
    rw [extend_concat, hjoin, List.getLast?_concat]
    by_cases hempty : name = ""
    · simp [hempty]
    · simp [hempty, extend_concat]

/-- Another text for the same steps that is not longer. -/
structure Shorter (p q : Path) : Prop where
  absolute : p.isAbsolute = true ∧ q.isAbsolute = true
  steps : Step.named p = Step.named q
  ending : Step.wantsDirectory p = Step.wantsDirectory q
  size : p.text.utf8ByteSize ≤ q.text.utf8ByteSize
  chars : p.text.toList ⊆ q.text.toList

theorem Shorter.refl (hp : p.isAbsolute = true) : Shorter p p :=
  ⟨⟨hp, hp⟩, rfl, rfl, le_refl _, List.Subset.refl _⟩

theorem Shorter.ofPath (h : Shorter p q) : Step.ofPath p = Step.ofPath q := by
  rw [Step.ofPath, Step.ofPath, h.steps, h.ending]

theorem Shorter.join (h : Shorter p q) (hname : '/' ∉ name.toList) :
    Shorter (p.join ⟨name⟩) (q.join ⟨name⟩) where
  absolute := ⟨isAbsolute_join_left h.absolute.1, isAbsolute_join_left h.absolute.2⟩
  steps := by
    have hrelative := isAbsolute_name hname
    rw [Step.named_join hrelative, Step.named_join hrelative, h.steps]
  ending := by
    rw [wantsDirectory_join_name h.absolute.1 hname, wantsDirectory_join_name h.absolute.2 hname]
  size := by
    rw [text_join h.absolute.1 hname, text_join h.absolute.2 hname, h.ending]
    simp only [String.utf8ByteSize_append]
    have := h.size
    omega
  chars := by
    rw [text_join h.absolute.1 hname, text_join h.absolute.2 hname, h.ending]
    simp only [String.toList_append]
    exact List.append_subset.mpr ⟨List.append_subset.mpr
      ⟨fun c hc => by simp [h.chars hc], fun c hc => by simp [hc]⟩, fun c hc => by simp [hc]⟩

theorem Shorter.extend (h : Shorter p q) {parts : List String}
    (hparts : ∀ part ∈ parts, '/' ∉ part.toList) : Shorter (p.extend parts) (q.extend parts) := by
  induction parts using List.reverseRecOn with
  | nil => exact h
  | append_singleton parts name ih =>
    rw [extend_concat, extend_concat]
    exact (ih fun part hpart => hparts part (List.mem_append_left _ hpart)).join
      (hparts name (by simp))

/-- A separator that is always put in makes the longer text. -/
theorem Shorter.piece (h : Shorter p q) (hname : '/' ∉ name.toList) :
    Shorter (p.join ⟨name⟩) ⟨q.text ++ "/" ++ name⟩ where
  absolute := by
    refine ⟨isAbsolute_join_left h.absolute.1, ?_⟩
    have hfirst : q.text.toList.head? = some '/' := by simpa [isAbsolute] using h.absolute.2
    simp [isAbsolute, hfirst]
  steps := by
    have hcut : q.text ++ "/" ++ name =
        String.ofList (q.text.toList ++ '/' :: name.toList) := String.toList_inj.mp (by simp)
    rw [Step.named_join (isAbsolute_name hname), h.steps, hcut, Step.named_cut,
      String.ofList_toList, String.ofList_toList]
  ending := by
    rw [wantsDirectory_join_name h.absolute.1 hname]
    by_cases hempty : name = ""
    · simp [hempty, Step.wantsDirectory]
    · have hlast : name.toList.getLast? ≠ some '/' :=
        fun hend => hname (List.mem_of_mem_getLast? hend)
      have hfilled : name.toList ≠ [] := by simpa using hempty
      have hend : (q.text ++ "/" ++ name).toList.getLast? = name.toList.getLast? := by
        rw [String.toList_append, List.getLast?_append_of_ne_nil _ hfilled]
      rw [Step.wantsDirectory, hend, beq_eq_false_iff_ne.mpr hlast]
      simpa using hempty
  size := by
    rw [text_join h.absolute.1 hname]
    simp only [String.utf8ByteSize_append]
    have hseparator : (if Step.wantsDirectory p then "" else "/").utf8ByteSize ≤
        "/".utf8ByteSize := by split <;> decide
    have := h.size
    omega
  chars := by
    rw [text_join h.absolute.1 hname]
    simp only [String.toList_append]
    refine List.append_subset.mpr ⟨List.append_subset.mpr ⟨fun c hc => ?_, fun c hc => ?_⟩,
      fun c hc => by simp [hc]⟩
    · simp [h.chars hc]
    · split at hc
      · cases hc
      · obtain rfl : c = '/' := by simpa using hc
        simp

/-! ### Pieces -/

/-- Pieces, each behind a separator of its own. -/
def written (pieces : List (List Char)) : List Char := pieces.flatMap ('/' :: ·)

/-- Behind a separator a text is its pieces, each behind a separator. -/
theorem written_splitOn (cs : List Char) : written (cs.splitOn '/') = '/' :: cs := by
  have hwritten (first : List Char) (more : List (List Char)) :
      written (first :: more) = '/' :: ['/'].intercalate (first :: more) := by
    induction more generalizing first with
    | nil => simp [written]
    | cons second more ih =>
      rw [List.intercalate_cons_cons, written, List.flatMap_cons, ← written, ih]
      simp
  obtain ⟨first, more, hpieces⟩ := List.exists_cons_of_ne_nil (List.splitOn_ne_nil '/' cs)
  rw [hpieces, hwritten, ← hpieces, List.intercalate_splitOn]

theorem Shorter.pieces (h : Shorter p q) {pieces : List (List Char)}
    (hpieces : ∀ piece ∈ pieces, '/' ∉ piece) :
    Shorter (p.extend (pieces.map String.ofList))
      ⟨String.ofList (q.text.toList ++ written pieces)⟩ := by
  induction pieces generalizing p q with
  | nil =>
    rw [written, List.flatMap_nil, List.append_nil, String.ofList_toList]
    exact h
  | cons piece more ih =>
    have hpiece : '/' ∉ (String.ofList piece).toList := by
      rw [String.toList_ofList]
      exact hpieces piece (List.mem_cons_self ..)
    have hmore := ih (h.piece hpiece) fun other hother =>
      hpieces other (List.mem_cons_of_mem _ hother)
    have htext : q.text.toList ++ written (piece :: more) =
        (q.text ++ "/" ++ String.ofList piece).toList ++ written more := by
      simp [written]
    rwa [htext]

/-- From the root on, the pieces put together make a text that is not longer. -/
theorem shorter_pieces {pieces : List (List Char)} (hne : pieces ≠ [])
    (hpieces : ∀ piece ∈ pieces, '/' ∉ piece) :
    Shorter ((Path.mk "/").extend (pieces.map String.ofList)) ⟨String.ofList (written pieces)⟩ := by
  obtain ⟨first, more, rfl⟩ := List.exists_cons_of_ne_nil hne
  have hfirst : (Path.mk "/").join ⟨String.ofList first⟩ = ⟨String.ofList ('/' :: first)⟩ := by
    have hroot : Step.wantsDirectory ⟨"/"⟩ = true := by decide
    have hslash : '/' ∉ (String.ofList first).toList := by
      rw [String.toList_ofList]
      exact hpieces first (List.mem_cons_self ..)
    have htext : ((Path.mk "/").join ⟨String.ofList first⟩).text = String.ofList ('/' :: first) := by
      rw [text_join (p := ⟨"/"⟩) (by decide) hslash, hroot, if_pos rfl, ← String.toList_inj]
      simp
    exact congrArg Path.mk htext
  have hwritten : written (first :: more) =
      (String.ofList ('/' :: first)).toList ++ written more := by simp [written]
  rw [hwritten]
  refine Shorter.pieces (p := (Path.mk "/").join ⟨String.ofList first⟩) ?_
    fun piece hpiece => hpieces piece (List.mem_cons_of_mem _ hpiece)
  rw [hfirst]
  exact .refl (by simp [isAbsolute])

end Path
end StableWheel
