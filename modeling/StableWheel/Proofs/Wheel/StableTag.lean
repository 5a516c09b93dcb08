import Mathlib.Data.List.Basic
import StableWheel.Tag

/-! Which runtimes get the tag of the stable interface.

A runtime is told apart twice: its default tag is made by the name of its implementation, and the
rewriting looks at the two letters that this tag opens with. A known family brings letters of its
own, but an implementation that nobody knows lends its whole name to the tag. So the two ways agree,
and only the reference implementation claims the stable interface, exactly when no name that opens
with `cp` stands for something else (`ofWheel_promised_iff`). -/
namespace StableWheel

/-! ### What a tag opens with -/

/-- The letters of a family are what tells its tags. -/
theorem Family.ofTag_eq_iff {family : Family} {letters : String}
    (h : family.marker = some letters) (tag : String) :
    ofTag tag = family ↔ letters.toList <+: tag.toList := by
  unfold ofTag
  generalize tag.toList = cs
  split
  case h_7 hcp hpp hgp hip hjy hpy =>
    -- the letters of the family are excluded by the match
    cases family <;> cases h <;> refine iff_of_false nofun ?_ <;> rintro ⟨rest, rfl⟩
    · exact hcp _ rfl
    · exact hpp _ rfl
    · exact hgp _ rfl
    · exact hip _ rfl
    · exact hjy _ rfl
    · exact hpy _ rfl
  all_goals cases family <;> cases h <;> simp

theorem Family.ofTag_eq_cpython_iff (tag : String) :
    ofTag tag = .cpython ↔ ['c', 'p'] <+: tag.toList := by
  have hmarker : marker .cpython = some "cp" := rfl
  simpa using ofTag_eq_iff hmarker tag

/-- No other family has the letters of the reference implementation. -/
theorem Family.marker_opens_iff {family : Family} {letters : String}
    (h : family.marker = some letters) (rest : List Char) :
    ['c', 'p'] <+: letters.toList ++ rest ↔ family = .cpython := by
  cases family <;> cases h <;> simp

theorem Family.ne_cpython_of_unmarked {family : Family} (h : family.marker = none) :
    family ≠ .cpython := by
  rintro rfl
  cases h

theorem Version.letter_not_mem_tagDigits {c : Char} (h : c.isDigit = false) (v : Version) :
    c ∉ v.tagDigits.toList := by
  have hnumber (n : Nat) : c ∉ (Decimal.natural n).toList := by
    intro hmem
    rw [Decimal.natural, String.toList_ofList, Decimal.digits] at hmem
    have hdigit := Nat.isDigit_of_mem_toDigits (by decide) (by decide) hmem
    rw [h] at hdigit
    cases hdigit
  simp [tagDigits, hnumber]

/-- What follows a name does not complete the letters, if it holds neither of them. -/
theorem opens_append_iff {rest : List Char} (hc : 'c' ∉ rest) (hp : 'p' ∉ rest) :
    ∀ name : List Char, ['c', 'p'] <+: name ++ rest ↔ ['c', 'p'] <+: name
  | [] => ⟨fun h => absurd (h.subset List.mem_cons_self) hc, fun h => absurd h (by simp)⟩
  | [c] => by
    simp only [List.cons_append, List.nil_append, List.cons_prefix_cons, List.prefix_nil,
      List.cons_ne_nil, and_false, iff_false, not_and]
    exact fun _ h => hp (h.subset List.mem_cons_self)
  | _ :: _ :: _ => by simp

/-! ### Reports -/

/-- The implementation belongs to no family that has letters of its own, and its name opens with
those of the reference implementation. -/
structure Report.Lookalike (r : Report) : Prop where
  unmarked : r.family.marker = none
  letters : ['c', 'p'] <+: r.implementation.toList

namespace Tag

/-- The letters that the tag of an interpreter opens with are those of the reference implementation
for that implementation and for the lookalikes. -/
theorem ofTag_ofReport_iff (r : Report) (platform : Option String) :
    Family.ofTag (ofReport r platform).interpreter = .cpython ↔
      r.family = .cpython ∨ r.Lookalike := by
  rw [Family.ofTag_eq_cpython_iff, ofReport, String.toList_append]
  rcases hmarker : r.family.marker with _ | letters
  · have hforeign := Family.ne_cpython_of_unmarked hmarker
    have hc := Version.letter_not_mem_tagDigits (c := 'c') (by decide) r.version
    have hp := Version.letter_not_mem_tagDigits (c := 'p') (by decide) r.version
    rw [Option.getD_none, opens_append_iff hc hp]
    exact ⟨fun h => .inr ⟨hmarker, h⟩, fun h => (h.resolve_left hforeign).letters⟩
  · have hmarked : ¬r.Lookalike := by
      rintro ⟨hunmarked, -⟩
      rw [hmarker] at hunmarked
      cases hunmarked
    rw [Option.getD_some, Family.marker_opens_iff hmarker, or_iff_left hmarked]

theorem underscore_mem_abiOf {family : Family} {soabi abi : String} (hfamily : family ≠ .cpython)
    (h : abiOf family soabi = some abi) : '_' ∈ abi.toList := by
  unfold abiOf at h
  split at h
  · rw [if_neg fun hreference => hfamily hreference.1] at h
    cases h
    simp [Text.replaceIf]
  · cases h

/-- By itself no other runtime has the stable interface. -/
theorem abi_ofReport_ne {r : Report} (platform : Option String) (h : r.family ≠ .cpython) :
    (ofReport r platform).abi ≠ stableAbi := by
  change (r.soabi.bind (abiOf r.family)).getD (abiFallback r.family r.version) ≠ stableAbi
  rcases hnamed : r.soabi.bind (abiOf r.family) with _ | abi
  · have hfallback : abiFallback r.family r.version = "none" := by
      unfold abiFallback
      split
      · next hreference => exact absurd hreference h
      · rfl
    rw [Option.getD_none, hfallback]
    decide
  · obtain ⟨soabi, -, habi⟩ := Option.bind_eq_some_iff.mp hnamed
    have hmem := underscore_mem_abiOf h habi
    rw [Option.getD_some]
    rintro rfl
    exact absurd hmem (by decide)

/-- The tag for every version from 3.8 on. -/
def stable (platform : String) : Tag := ⟨"cp38", "abi3", platform⟩

/-- The tag that a compiled wheel should have: the stable one for the reference implementation, and
for any other runtime the one that names it. -/
def promised (r : Report) (platform : Option String) : Tag :=
  if r.family = .cpython then stable (normalizePlatform (platform.getD r.platform))
  else ofReport r platform

/-- A tag that opens with the letters of the reference implementation keeps its platform only. -/
theorem stabilised_of_cpython {t : Tag} (h : Family.ofTag t.interpreter = .cpython)
    (minimum : Version) :
    t.stabilised minimum = ⟨stableInterpreter minimum, stableAbi, t.platform⟩ := by
  rw [stabilised, h]

theorem stabilised_of_reference {t : Tag} (h : Family.ofTag t.interpreter = .cpython) :
    t.stabilised Version.stableMinimum = stable t.platform := by
  have hinterpreter : stableInterpreter Version.stableMinimum = "cp38" := by decide +kernel
  rw [stabilised_of_cpython h, hinterpreter, stable, stableAbi]

theorem stabilised_of_other {t : Tag} (minimum : Version)
    (h : Family.ofTag t.interpreter ≠ .cpython) : t.stabilised minimum = t := by
  unfold stabilised
  split
  · next hreference => exact absurd hreference h
  · rfl

end Tag

/-- **Exactly when only the reference implementation claims the stable interface.** A compiled wheel
gets the tag that it should have, and the two ways to tell the family of a runtime agree on whether
it is the reference implementation, for every runtime that is no lookalike; the wheel of a lookalike
claims the stable interface. -/
theorem ofWheel_promised_iff (r : Report) (platform : Option String) :
    (Tag.ofWheel (some r) platform = Tag.promised r platform ↔ ¬r.Lookalike) ∧
      ((Family.ofTag (Tag.ofReport r platform).interpreter = .cpython ↔ r.family = .cpython) ↔
        ¬r.Lookalike) ∧
      (r.Lookalike →
        Tag.ofWheel (some r) platform =
          Tag.stable (Tag.normalizePlatform (platform.getD r.platform))) := by
  have htold := Tag.ofTag_ofReport_iff r platform
  change (Tag.stabilised _ _ = _ ↔ _) ∧ _ ∧ (_ → Tag.stabilised _ _ = _)
  by_cases hlookalike : r.Lookalike
  · have hforeign := Family.ne_cpython_of_unmarked hlookalike.unmarked
    have hclaimed := Tag.stabilised_of_reference (htold.mpr (.inr hlookalike))
    have hdiffers : Tag.stable (Tag.ofReport r platform).platform ≠ Tag.ofReport r platform :=
      fun heq => Tag.abi_ofReport_ne platform hforeign (congrArg Tag.abi heq.symm)
    rw [hclaimed, Tag.promised, if_neg hforeign]
    refine ⟨iff_of_false hdiffers (not_not_intro hlookalike),
      iff_of_false (fun hagree => hforeign (hagree.mp (htold.mpr (.inr hlookalike))))
        (not_not_intro hlookalike), fun _ => rfl⟩
  · rw [or_iff_left hlookalike] at htold
    refine ⟨iff_of_true ?_ hlookalike, iff_of_true htold hlookalike, fun h => absurd h hlookalike⟩
    by_cases hreference : r.family = .cpython
    · rw [Tag.promised, if_pos hreference, Tag.stabilised_of_reference (htold.mpr hreference)]
      rfl
    · rw [Tag.promised, if_neg hreference]
      exact Tag.stabilised_of_other _ (mt htold.mp hreference)

/-- What an implementation of its own reports, whose name opens as the tags of another one do. -/
def lookalikeReport : Report :=
  ⟨"cpyston", 3, 10, none, ⟨"/usr/include"⟩, "linux-x86_64", none, ⟨"/usr"⟩⟩

/-- No family knows it, and its wheels claim to fit the reference implementation. -/
theorem lookalike_claims_stable :
    lookalikeReport.family = .unknown ∧
      (Tag.ofReport lookalikeReport none).text = "cpyston310-none-linux_x86_64" ∧
      Family.ofTag (Tag.ofReport lookalikeReport none).interpreter = .cpython ∧
      (Tag.ofWheel (some lookalikeReport) none).text = "cp38-abi3-linux_x86_64" := by
  decide +kernel

end StableWheel
