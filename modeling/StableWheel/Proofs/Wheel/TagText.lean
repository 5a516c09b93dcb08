import StableWheel.Proofs.Text.Pieces
import StableWheel.Proofs.Text.Trimming
import StableWheel.Tag

/-! Tags as texts.

A text is read as a tag exactly when it is the text of one, blanks around it aside
(`Tag.parse_eq_ok_iff`); so writing what was read gives the text back without these blanks. The other
way round, a tag comes back from its own text exactly if its parts are parts and no blank stands at
either end (`Tag.parse_text_iff`). -/
namespace StableWheel
open Text (Tight trim trimmed cutThree_eq_iff)

namespace Tag

/-- What may stand between the dashes of a tag. -/
def IsPart (part : String) : Prop := part ≠ "" ∧ '-' ∉ part.toList

/-- A tag of three parts that can be told apart in its text. -/
structure Composed (t : Tag) : Prop where
  interpreter : IsPart t.interpreter
  abi : IsPart t.abi
  platform : IsPart t.platform

/-- A tag whose text tells everything about it. -/
structure Legible (t : Tag) : Prop extends Composed t where
  front : ∀ c, t.interpreter.toList.head? = some c → Text.isBlank c = false
  back : ∀ c, t.platform.toList.getLast? = some c → Text.isBlank c = false

theorem text_toList (t : Tag) :
    t.text.toList =
      t.interpreter.toList ++ '-' :: (t.abi.toList ++ '-' :: t.platform.toList) := by
  simp [text]

theorem isPart_ofList_iff {cs : List Char} :
    IsPart (String.ofList cs) ↔ cs ≠ [] ∧ '-' ∉ cs := by
  simp [IsPart]

theorem toList_ne_nil {part : String} (h : IsPart part) : part.toList ≠ [] :=
  fun hnil => h.1 (String.toList_inj.mp hnil)

/-! ### Reading -/

theorem parse?_eq_some_iff {s : String} {t : Tag} :
    parse? s = some t ↔ t.Composed ∧ t.text = trim s := by
  have htext : t.text = trim s ↔ trimmed s.toList =
      t.interpreter.toList ++ '-' :: (t.abi.toList ++ '-' :: t.platform.toList) := by
    rw [← text_toList, ← Text.trim_toList, String.toList_inj, eq_comm]
  rw [htext]
  constructor
  · intro h
    unfold parse? at h
    split at h
    · next interpreter abi platform hcut =>
      obtain ⟨hinterpreter, habi, hcs⟩ := cutThree_eq_iff.mp hcut
      split at h
      · next hfilled =>
        obtain ⟨hi, ha, hp, hplatform⟩ := hfilled
        cases h
        refine ⟨⟨isPart_ofList_iff.mpr ⟨hi, hinterpreter⟩, isPart_ofList_iff.mpr ⟨ha, habi⟩,
          isPart_ofList_iff.mpr ⟨hp, hplatform⟩⟩, ?_⟩
        simpa using hcs
      · cases h
    · cases h
  · rintro ⟨⟨hinterpreter, habi, hplatform⟩, hcs⟩
    have hcut := cutThree_eq_iff.mpr ⟨hinterpreter.2, habi.2, hcs⟩
    rw [parse?, hcut]
    dsimp only
    rw [if_pos ⟨toList_ne_nil hinterpreter, toList_ne_nil habi, toList_ne_nil hplatform, hplatform.2⟩]
    simp only [String.ofList_toList]

/-- What is read as a tag is the text of this tag, blanks around it aside. -/
theorem parse_eq_ok_iff {s : String} {t : Tag} :
    parse s = .ok t ↔ t.Composed ∧ t.text = trim s := by
  rw [← parse?_eq_some_iff, parse]
  cases parse? s <;> simp

/-- A text that is no tag is named as it was given. -/
theorem parse_eq_error {s : String} (h : ∀ t, parse s ≠ .ok t) : parse s = .error ⟨s⟩ := by
  unfold parse at h ⊢
  split
  · next t ht => exact absurd (by rw [ht]) (h t)
  · rfl

/-! ### Reading what was written -/

theorem head?_text {t : Tag} (h : IsPart t.interpreter) :
    t.text.toList.head? = t.interpreter.toList.head? := by
  rw [text_toList, List.head?_append_of_ne_nil _ (toList_ne_nil h)]

theorem getLast?_text {t : Tag} (h : IsPart t.platform) :
    t.text.toList.getLast? = t.platform.toList.getLast? := by
  have htext : t.text.toList =
      (t.interpreter.toList ++ '-' :: (t.abi.toList ++ ['-'])) ++ t.platform.toList := by
    simp [text_toList]
  rw [htext, List.getLast?_append_of_ne_nil _ (toList_ne_nil h)]

/-- No blank is lost at either end of the text of a legible tag. -/
theorem Composed.legible_iff {t : Tag} (h : t.Composed) : t.Legible ↔ Tight t.text.toList := by
  have hfront := head?_text h.interpreter
  have hback := getLast?_text h.platform
  constructor
  · intro hlegible
    exact ⟨hfront ▸ hlegible.front, hback ▸ hlegible.back⟩
  · intro htight
    exact ⟨h, hfront ▸ htight.front, hback ▸ htight.back⟩

/-- What was read can be written and read again. -/
theorem parse_legible {s : String} {t : Tag} (h : parse s = .ok t) : t.Legible := by
  obtain ⟨hcomposed, htext⟩ := parse_eq_ok_iff.mp h
  rw [hcomposed.legible_iff, htext, Text.trim_toList]
  exact Text.tight_trimmed _

theorem parse_text_iff {t : Tag} : parse t.text = .ok t ↔ t.Legible := by
  refine ⟨parse_legible, fun h => parse_eq_ok_iff.mpr ⟨h.toComposed, ?_⟩⟩
  exact (Text.trim_of_tight (h.toComposed.legible_iff.mp h)).symm

end Tag

/-- **Exactly the texts of tags are read.** A text is read as a tag if and only if, without the
blanks around it, it is made of three parts that are not empty and hold no dash, with a dash between
each two. Then the tag that was read has this text; and any other text is refused and named as it
was given. A tag comes back from its own text exactly if its parts are such parts, the first one does
not start with a blank and the last one does not end with one. -/
theorem parse_accepts_tags :
    (∀ s, (∃ t, Tag.parse s = .ok t) ↔ ∃ interpreter abi platform,
      Tag.IsPart interpreter ∧ Tag.IsPart abi ∧ Tag.IsPart platform ∧
        trim s = interpreter ++ "-" ++ abi ++ "-" ++ platform) ∧
    (∀ s t, Tag.parse s = .ok t → t.text = trim s) ∧
    (∀ s, (∀ t, Tag.parse s ≠ .ok t) → Tag.parse s = .error ⟨s⟩) ∧
    ∀ t : Tag, Tag.parse t.text = .ok t ↔ t.Legible := by
  refine ⟨fun s => ⟨?_, ?_⟩, fun s t h => (Tag.parse_eq_ok_iff.mp h).2,
    fun s h => Tag.parse_eq_error h, fun t => Tag.parse_text_iff⟩
  · rintro ⟨t, ht⟩
    obtain ⟨⟨hinterpreter, habi, hplatform⟩, htext⟩ := Tag.parse_eq_ok_iff.mp ht
    exact ⟨t.interpreter, t.abi, t.platform, hinterpreter, habi, hplatform, htext.symm⟩
  · rintro ⟨interpreter, abi, platform, hinterpreter, habi, hplatform, htext⟩
    exact ⟨⟨interpreter, abi, platform⟩,
      Tag.parse_eq_ok_iff.mpr ⟨⟨hinterpreter, habi, hplatform⟩, htext.symm⟩⟩

end StableWheel
