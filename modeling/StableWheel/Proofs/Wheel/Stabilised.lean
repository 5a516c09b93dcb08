import StableWheel.Proofs.Text.Bytewise
import StableWheel.Proofs.Wheel.StableTag

/-! Giving tags their stable form.

Only the first two bytes of a tag decide whether it has a stable form (`Tag.reference_iff`), and of
what it names nothing is left in this form but the platform. The form of one minimum opens as those
of the reference implementation do, so that it can be given another minimum
(`Tag.stabilised_stabilised`), and the same minimum leaves it as it is. -/
namespace StableWheel.Tag

/-- The tag starts with the letters of the reference implementation, byte by byte. -/
def Reference (t : Tag) : Prop := Text.bytes "cp" <+: Text.bytes t.interpreter

theorem reference_iff {t : Tag} : t.Reference ↔ Family.ofTag t.interpreter = .cpython := by
  rw [Reference, Text.bytes_prefix_iff]
  exact (Family.ofTag_eq_iff rfl t.interpreter).symm

/-- The form opens as the tags of the reference implementation do. -/
theorem ofTag_stabilised {t : Tag} (h : Family.ofTag t.interpreter = .cpython) (minimum : Version) :
    Family.ofTag (t.stabilised minimum).interpreter = .cpython := by
  rw [stabilised_of_cpython h minimum, Family.ofTag_eq_cpython_iff]
  change ['c', 'p'] <+: (stableInterpreter minimum).toList
  rw [stableInterpreter, String.toList_append]
  exact List.prefix_append _ _

/-- Whatever the minimum was before, the last one counts. -/
theorem stabilised_stabilised (t : Tag) (earlier minimum : Version) :
    (t.stabilised earlier).stabilised minimum = t.stabilised minimum := by
  by_cases h : Family.ofTag t.interpreter = .cpython
  · rw [stabilised_of_cpython (ofTag_stabilised h earlier) minimum, platform_stabilised,
      stabilised_of_cpython h minimum]
  · rw [stabilised_of_other earlier h]

/-- **What the stable form of a tag is.** For every minimum and whatever texts a tag consists of, the
platform stays. If the tag starts with `cp`, its interpreter becomes `cp` with the digits of the
minimum and its binary interface becomes `abi3`, so that all such tags for one platform have the same
form; any other tag stays as it is. The form of a form is the form itself, and forms of any other
minimum make no difference. -/
theorem stabilised_collapses (minimum : Version) (t : Tag) :
    (t.stabilised minimum).platform = t.platform ∧
      (t.Reference → (t.stabilised minimum).interpreter = "cp" ++ minimum.tagDigits ∧
        (t.stabilised minimum).abi = "abi3" ∧
        ∀ t' : Tag, t'.Reference → t'.platform = t.platform →
          t'.stabilised minimum = t.stabilised minimum) ∧
      (¬t.Reference → t.stabilised minimum = t) ∧
      (t.stabilised minimum).stabilised minimum = t.stabilised minimum ∧
      ∀ earlier, (t.stabilised earlier).stabilised minimum = t.stabilised minimum := by
  refine ⟨platform_stabilised minimum t, fun h => ?_, fun h => ?_,
    stabilised_stabilised t minimum minimum, fun earlier => stabilised_stabilised t earlier minimum⟩
  · have hform := stabilised_of_cpython (reference_iff.mp h) minimum
    rw [hform]
    refine ⟨rfl, rfl, fun t' h' hplatform => ?_⟩
    rw [stabilised_of_cpython (reference_iff.mp h') minimum, hplatform]
  · exact stabilised_of_other minimum fun hreference => h (reference_iff.mpr hreference)

end StableWheel.Tag
