import Mathlib.Data.List.Chain
import StableWheel.Proofs.Text.Header
import StableWheel.Proofs.Wheel.StableTag
import StableWheel.Wheel.Metadata

/-! What tells a pure wheel from a compiled one.

A wheel does not remember whether anything was compiled for it: that is told by its tag. The tag of
a compiled wheel names a version of the language by two numbers, one right behind the other, and the
tag of a pure one has no place for them (`text_ofWheel_iff`). So no interpreter makes a compiled
wheel pass for a pure one (`ofWheel_eq_pure_iff`). -/
namespace StableWheel

/-- Two digits stand side by side. -/
def Paired (text : List Char) : Prop :=
  ∃ a b, a.isDigit = true ∧ b.isDigit = true ∧ [a, b] <:+: text

theorem Paired.append {text : List Char} (h : Paired text) (before after : List Char) :
    Paired (before ++ text ++ after) := by
  obtain ⟨a, b, ha, hb, hin⟩ := h
  exact ⟨a, b, ha, hb, hin.trans (List.infix_append before text after)⟩

/-- A number has digits only, and at least one. -/
theorem Decimal.digits_spec (n : Nat) :
    Decimal.digits n ≠ [] ∧ ∀ c ∈ Decimal.digits n, c.isDigit = true :=
  ⟨by simp [Decimal.digits], fun _ hc => Nat.isDigit_of_mem_toDigits (by decide) (by decide) hc⟩

/-- The last digit of the first number and the first one of the second. -/
theorem Version.paired_tagDigits (v : Version) : Paired v.tagDigits.toList := by
  obtain ⟨hmajor, hdigits⟩ := Decimal.digits_spec v.major.toNat
  obtain ⟨hminor, hdigits'⟩ := Decimal.digits_spec v.minor.toNat
  obtain ⟨before, a, ha⟩ := List.eq_nil_or_concat _ |>.resolve_left hmajor
  obtain ⟨b, after, hb⟩ := List.exists_cons_of_ne_nil hminor
  have htext : v.tagDigits.toList = before ++ [a, b] ++ after := by
    simp [tagDigits, Decimal.natural, ha, hb]
  refine ⟨a, b, hdigits a (by simp [ha]), hdigits' b (by simp [hb]), ?_⟩
  rw [htext]
  exact List.infix_append before [a, b] after

namespace Tag

/-- The digits of a version stand in the tag of a compiled wheel. -/
theorem paired_ofWheel (r : Report) (platform : Option String) :
    Paired (ofWheel (some r) platform).text.toList := by
  have hinterpreter : ∃ (name : String) (v : Version),
      (ofWheel (some r) platform).interpreter = name ++ v.tagDigits := by
    unfold ofWheel stabilised
    dsimp only
    split
    · exact ⟨"cp", Version.stableMinimum, rfl⟩
    · exact ⟨_, r.version, rfl⟩
  obtain ⟨name, v, hname⟩ := hinterpreter
  have htext : (ofWheel (some r) platform).text.toList = name.toList ++ v.tagDigits.toList ++
      ('-' :: (ofWheel (some r) platform).abi.toList ++
        '-' :: (ofWheel (some r) platform).platform.toList) := by
    simp [text, hname]
  rw [htext]
  exact v.paired_tagDigits.append _ _

theorem not_paired_pure : ¬ Paired pure.text.toList := by
  rintro ⟨a, b, ha, hb, hin⟩
  have hchain : List.IsChain (fun a b : Char => ¬ (a.isDigit = true ∧ b.isDigit = true))
      pure.text.toList := by
    decide
  have hpair := hchain.infix hin
  rw [List.isChain_pair] at hpair
  exact hpair ⟨ha, hb⟩

/-- A wheel is labelled as a pure one exactly if nothing was compiled for it. -/
theorem text_ofWheel_iff (report : Option Report) (platform : Option String) :
    (ofWheel report platform).text = pure.text ↔ report = none := by
  cases report with
  | none => exact iff_of_true rfl rfl
  | some r =>
    refine iff_of_false (fun hsame => ?_) nofun
    have hpaired := paired_ofWheel r platform
    rw [hsame] at hpaired
    exact not_paired_pure hpaired

theorem ofWheel_eq_pure_iff (report : Option Report) (platform : Option String) :
    ofWheel report platform = pure ↔ report = none := by
  refine ⟨fun hsame => (text_ofWheel_iff report platform).mp (congrArg text hsame), ?_⟩
  rintro rfl
  rfl

end Tag

namespace Wheel
open Text.Header (LineEnds Plain Unbroken line read_line value?)

/-- The fields of a wheel's own file, one a line. -/
theorem wheelFile_eq (w : Wheel) :
    w.wheelFile = line ("Wheel-Version", formatVersion) ++ (line ("Generator", generator) ++
      (line ("Root-Is-Purelib", if w.isPure then "true" else "false") ++
        line ("Tag", w.tag.text))) := by
  have hversion : "Wheel-Version: " = "Wheel-Version" ++ ": " := by decide +kernel
  have hgenerator : "Generator: " = "Generator" ++ ": " := by decide +kernel
  have hpurelib : "Root-Is-Purelib: " = "Root-Is-Purelib" ++ ": " := by decide +kernel
  have htag : "Tag: " = "Tag" ++ ": " := by decide +kernel
  unfold wheelFile line
  dsimp only
  simp only [hversion, hgenerator, hpurelib, htag, String.append_assoc, -String.reduceAppend]

/-- Whatever the tag is, it comes behind the other fields. -/
theorem read_wheelFile (ends : LineEnds) (w : Wheel) :
    Text.Header.read ends w.wheelFile =
      ("Wheel-Version", formatVersion) :: ("Generator", generator) ::
        ("Root-Is-Purelib", if w.isPure then "true" else "false") ::
          Text.Header.read ends (line ("Tag", w.tag.text)) := by
  have hplain : ∀ name ∈ ["Wheel-Version", "Generator", "Root-Is-Purelib"], Plain name := by
    decide +kernel
  have hunbroken : ∀ text ∈ [formatVersion, generator, "true", "false"], Unbroken ends text := by
    cases ends <;> decide +kernel
  have hpurity : Unbroken ends (if w.isPure then "true" else "false") := by
    split
    · exact hunbroken "true" (by simp)
    · exact hunbroken "false" (by simp)
  rw [wheelFile_eq, read_line (hplain _ (by simp)) (hunbroken _ (by simp)),
    read_line (hplain _ (by simp)) (hunbroken _ (by simp)), read_line (hplain _ (by simp)) hpurity]

/-- A wheel says whether it is pure before it comes to its tag, so that nothing in the tag is taken
for that. -/
theorem value?_purelib (ends : LineEnds) (w : Wheel) :
    value? ends w.wheelFile "Root-Is-Purelib" = some (if w.isPure then "true" else "false") := by
  rw [value?, read_wheelFile]
  rfl

/-- The tag is read as it is where it is one line. -/
theorem value?_tag {ends : LineEnds} {w : Wheel} (h : Unbroken ends w.tag.text) :
    value? ends w.wheelFile "Tag" = some w.tag.text := by
  have hplain : Plain "Tag" := by decide
  have hread := read_line (f := ("Tag", w.tag.text)) hplain h ""
  rw [String.append_empty] at hread
  rw [value?, read_wheelFile, hread]
  rfl

theorem unbroken_pure (ends : LineEnds) : Unbroken ends Tag.pure.text := by
  cases ends <;> decide +kernel

/-- The file of a compiled wheel ends with its tag. -/
theorem wheelFile_compiled {w : Wheel} (hcompiled : w.tag ≠ Tag.pure) :
    w.wheelFile = "Wheel-Version: 1.0\nGenerator: wheelwright 0.1.0\nRoot-Is-Purelib: false\nTag: "
      ++ w.tag.text ++ "\n" := by
  have hhead : "Wheel-Version: " ++ formatVersion ++ "\n" ++ "Generator: " ++ generator ++ "\n"
      ++ "Root-Is-Purelib: " ++ "false" ++ "\n" ++ "Tag: " =
      "Wheel-Version: 1.0\nGenerator: wheelwright 0.1.0\nRoot-Is-Purelib: false\nTag: " := by
    decide +kernel
  have himpure : w.isPure = false := decide_eq_false hcompiled
  unfold wheelFile
  simp only [himpure, Bool.false_eq_true, if_false, -String.reduceAppend]
  exact congrArg (fun head => head ++ w.tag.text ++ "\n") hhead

end Wheel
end StableWheel
