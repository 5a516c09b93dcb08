import StableWheel.Proofs.Wheel.Stabilised
import StableWheel.Proofs.Wheel.TagText

/-! Tags that stay legible.

A tag that was read can be given another platform and its stable form. Neither changes that its first
two parts are parts, so it is up to the platform alone whether its text is read again
(`Headed.parse_text_iff`); and the name of a platform becomes a part unless it is blank
(`isPart_normalizePlatform_iff`). -/
namespace StableWheel.Tag
open Text (Tight trim trimmed allBlank isBlank)

/-! ### Platforms -/

theorem normalizePlatform_toList (platform : String) :
    (normalizePlatform platform).toList = (trimmed platform.toList).map fun c =>
      if c == '-' || c == '.' || c == ' ' then '_' else c := by
  simp [normalizePlatform, Text.replaceIf, Text.trim_toList]

/-- The name of a platform becomes a part of a tag unless it is blank. -/
theorem isPart_normalizePlatform_iff {platform : String} :
    IsPart (normalizePlatform platform) ↔ allBlank platform = false := by
  have hempty : normalizePlatform platform = "" ↔ allBlank platform = true := by
    rw [← String.toList_inj, normalizePlatform_toList, ← Text.trimmed_eq_nil_iff]
    simp
  have hundashed : '-' ∉ (normalizePlatform platform).toList := by
    rw [normalizePlatform_toList]
    intro hmem
    obtain ⟨c, -, hc⟩ := List.mem_map.mp hmem
    split at hc
    · cases hc
    · next hother => simp [hc] at hother
  rw [IsPart, and_iff_left hundashed, ne_eq, hempty, Bool.not_eq_true]

theorem normalizePlatform_back (platform : String) :
    ∀ c, (normalizePlatform platform).toList.getLast? = some c → isBlank c = false := by
  intro c hc
  rw [normalizePlatform_toList, List.getLast?_map] at hc
  obtain ⟨last, hlast, rfl⟩ := Option.map_eq_some_iff.mp hc
  split
  · decide
  · exact (Text.tight_trimmed _).back last hlast

/-- The tag for another platform, if one is given. -/
def onPlatform (t : Tag) (platform : Option String) : Tag :=
  { t with platform := (platform.map normalizePlatform).getD t.platform }

theorem Legible.isPart_onPlatform_iff {t : Tag} (h : t.Legible) (platform : Option String) :
    IsPart (t.onPlatform platform).platform ↔ ∀ p, platform = some p → allBlank p = false := by
  cases platform with
  | none => exact iff_of_true h.platform nofun
  | some p =>
    change IsPart (normalizePlatform p) ↔ _
    rw [isPart_normalizePlatform_iff]
    simp

theorem Legible.onPlatform_back {t : Tag} (h : t.Legible) (platform : Option String) :
    ∀ c, (t.onPlatform platform).platform.toList.getLast? = some c → isBlank c = false := by
  cases platform with
  | none => exact h.back
  | some p => exact normalizePlatform_back p

/-! ### All but the platform -/

/-- The first two parts of a tag are as those of a legible one. -/
structure Headed (t : Tag) : Prop where
  interpreter : IsPart t.interpreter
  abi : IsPart t.abi
  front : ∀ c, t.interpreter.toList.head? = some c → isBlank c = false

theorem Legible.headed {t : Tag} (h : t.Legible) : t.Headed := ⟨h.interpreter, h.abi, h.front⟩

theorem Headed.onPlatform {t : Tag} (h : t.Headed) (platform : Option String) :
    (t.onPlatform platform).Headed := ⟨h.interpreter, h.abi, h.front⟩

theorem isPart_stableInterpreter (minimum : Version) : IsPart (stableInterpreter minimum) := by
  have hdigits := Version.letter_not_mem_tagDigits (c := '-') (by decide) minimum
  constructor
  · rw [← String.toList_inj.ne]
    simp [stableInterpreter]
  · simp [stableInterpreter, hdigits]

theorem Headed.stabilised {t : Tag} (h : t.Headed) (minimum : Version) :
    (t.stabilised minimum).Headed := by
  by_cases hreference : Family.ofTag t.interpreter = .cpython
  · have habi : IsPart stableAbi := ⟨by decide, by decide⟩
    rw [stabilised_of_cpython hreference]
    refine ⟨isPart_stableInterpreter minimum, habi, fun c hc => ?_⟩
    obtain rfl : 'c' = c := by simpa [stableInterpreter] using hc
    decide
  · rwa [stabilised_of_other minimum hreference]

/-! ### Reading again -/

theorem Headed.text_front {t : Tag} (h : t.Headed) : t.text.toList.head? ≠ some '-' := by
  rw [head?_text h.interpreter]
  exact fun hdash => h.interpreter.2 (List.mem_of_head? hdash)

/-- Two tags whose first two parts hold no dash have different texts, unless they are the same. -/
theorem eq_of_text_eq {t t' : Tag} (hi : '-' ∉ t.interpreter.toList) (ha : '-' ∉ t.abi.toList)
    (hi' : '-' ∉ t'.interpreter.toList) (ha' : '-' ∉ t'.abi.toList) (h : t.text = t'.text) :
    t = t' := by
  have hcut := Text.cutThree_eq_iff.mpr ⟨hi, ha, t.text_toList⟩
  have hcut' := Text.cutThree_eq_iff.mpr ⟨hi', ha', t'.text_toList⟩
  rw [h, hcut'] at hcut
  obtain ⟨interpreter, abi, platform⟩ := t
  obtain ⟨interpreter', abi', platform'⟩ := t'
  simp only [List.cons.injEq, String.toList_inj, and_true] at hcut
  obtain ⟨rfl, rfl, rfl⟩ := hcut
  rfl

theorem Headed.tight_text {t : Tag} (h : t.Headed)
    (hback : ∀ c, t.platform.toList.getLast? = some c → isBlank c = false) :
    Tight t.text.toList := by
  constructor
  · rw [head?_text h.interpreter]
    exact h.front
  · intro c hc
    have htext : t.text.toList =
        t.interpreter.toList ++ ('-' :: t.abi.toList) ++ '-' :: t.platform.toList := by
      simp [text_toList]
    rw [htext, List.getLast?_append_of_ne_nil _ (List.cons_ne_nil _ _)] at hc
    -- a dash comes last if there is no platform
    rcases hplatform : t.platform.toList with _ | ⟨first, rest⟩
    · rw [hplatform] at hc
      cases hc
      decide
    · rw [hplatform, List.getLast?_cons_cons, ← hplatform] at hc
      exact hback c hc

/-- Whether the text of such a tag is read again is up to its platform. -/
theorem Headed.parse_text_iff {t t' : Tag} (h : t.Headed)
    (hback : ∀ c, t.platform.toList.getLast? = some c → isBlank c = false) :
    parse t.text = .ok t' ↔ t' = t ∧ IsPart t.platform := by
  constructor
  · intro ht'
    obtain ⟨hcomposed, htext⟩ := parse_eq_ok_iff.mp ht'
    rw [Text.trim_of_tight (h.tight_text hback)] at htext
    obtain rfl := eq_of_text_eq hcomposed.interpreter.2 hcomposed.abi.2 h.interpreter.2 h.abi.2 htext
    exact ⟨rfl, hcomposed.platform⟩
  · rintro ⟨rfl, hplatform⟩
    exact Tag.parse_text_iff.mpr ⟨⟨h.interpreter, h.abi, hplatform⟩, h.front, hback⟩

end StableWheel.Tag
