import Mathlib.Data.List.Basic
import StableWheel.Project.Config
import StableWheel.Proofs.Wheel.TagText
import StableWheel.Wheel.Metadata

/-! What an installer reads from the name of a wheel.

The name is made of five parts with dashes between them. No dash is left in the distribution's name,
and a tag that was read has none in its parts either (`Tag.parse_undashed`), but the version stands
as it was given: the parts are those that went in exactly when it holds no dash
(`fileName_parts_iff`). -/
namespace StableWheel
open Text (pieces pieces_append pieces_of_not_mem pieces_eq_singleton_iff)

/-- The parts of the name of a wheel's file; none, if the name does not end like one. -/
def fileNameParts (name : String) : Option (List String) :=
  (name.toList.dropSuffix? ".whl".toList).map fun cs => pieces '-' (String.ofList cs)

theorem fileNameParts_whl (s : String) : fileNameParts (s ++ ".whl") = some (pieces '-' s) := by
  have hdrop : (s ++ ".whl").toList.dropSuffix? ".whl".toList = some s.toList :=
    List.dropSuffix?_eq_some_iff.mpr ⟨".whl".toList, by simp, by simp⟩
  rw [fileNameParts, hdrop, Option.map_some, String.ofList_toList]

/-! ### Tags -/

namespace Tag

/-- None of the parts holds a dash. -/
structure Undashed (t : Tag) : Prop where
  interpreter : '-' ∉ t.interpreter.toList
  abi : '-' ∉ t.abi.toList
  platform : '-' ∉ t.platform.toList

theorem parse_undashed {s : String} {t : Tag} (h : parse s = .ok t) : t.Undashed := by
  obtain ⟨hinterpreter, habi, hplatform⟩ := (parse_eq_ok_iff.mp h).1
  exact ⟨hinterpreter.2, habi.2, hplatform.2⟩

theorem pieces_text {t : Tag} (h : t.Undashed) :
    pieces '-' t.text = [t.interpreter, t.abi, t.platform] := by
  have htext : t.text = t.interpreter ++ String.singleton '-' ++
      (t.abi ++ String.singleton '-' ++ t.platform) := by
    simp [text, String.append_assoc]
  rw [htext, pieces_append, pieces_append, pieces_of_not_mem h.interpreter,
    pieces_of_not_mem h.abi, pieces_of_not_mem h.platform]
  rfl

end Tag

/-! ### Names -/

namespace Wheel

theorem distName_undashed (w : Wheel) : '-' ∉ w.distName.toList := by
  intro hmem
  simp only [distName, Text.replaceIf, String.toList_ofList, List.mem_map] at hmem
  obtain ⟨c, -, hc⟩ := hmem
  split at hc
  · cases hc
  · next hne => simp [hc] at hne

/-- What the name of a wheel comes to: one part for the distribution's name, as many as the version
has, and three for the tag. -/
theorem parts_fileName (w : Wheel) (h : w.tag.Undashed) :
    fileNameParts w.fileName =
      some (w.distName :: (pieces '-' w.version ++
        [w.tag.interpreter, w.tag.abi, w.tag.platform])) := by
  have hname : w.stem ++ "-" ++ w.tag.text = w.distName ++ String.singleton '-' ++
      (w.version ++ String.singleton '-' ++ w.tag.text) := by
    simp [stem, String.append_assoc]
  rw [fileName, fileNameParts_whl, hname, pieces_append, pieces_append, Tag.pieces_text h,
    pieces_of_not_mem w.distName_undashed]
  rfl

end Wheel

/-- **Exactly when the name of a wheel tells what it is.** Whatever the wheel is called and
whichever tag was read for it, an installer that takes the name of its file apart finds the five
parts that it was made of, in their order, if and only if the version holds no dash. -/
theorem fileName_parts_iff (w : Wheel) (s : String) (h : Tag.parse s = .ok w.tag) :
    fileNameParts w.fileName =
        some [w.distName, w.version, w.tag.interpreter, w.tag.abi, w.tag.platform] ↔
      '-' ∉ w.version.toList := by
  rw [w.parts_fileName (Tag.parse_undashed h), ← pieces_eq_singleton_iff]
  constructor
  · intro hparts
    have hrest : pieces '-' w.version ++ [w.tag.interpreter, w.tag.abi, w.tag.platform] =
        [w.version] ++ [w.tag.interpreter, w.tag.abi, w.tag.platform] :=
      (List.cons.inj (Option.some.inj hparts)).2
    exact List.append_cancel_right hrest
  · intro hversion
    rw [hversion]
    rfl

/-- A wheel of a version for the stable interface. -/
def versionedWheel (version : String) : Wheel :=
  ⟨"tree-sitter-demo", version, ⟨"cp38", "abi3", "linux_x86_64"⟩, none, none⟩

/-- The installer finds five parts. -/
theorem versionedWheel_parts :
    Tag.parse " cp38-abi3-linux_x86_64" = .ok (versionedWheel "1.0").tag ∧
      fileNameParts (versionedWheel "1.0").fileName =
        some ["tree_sitter_demo", "1.0", "cp38", "abi3", "linux_x86_64"] := by
  have hparsed : Tag.parse " cp38-abi3-linux_x86_64" = .ok (versionedWheel "1.0").tag := by
    decide +kernel
  exact ⟨hparsed, (fileName_parts_iff (versionedWheel "1.0") _ hparsed).mpr (by decide)⟩

/-- A description that nothing is found wrong with, of a version with a dash in it. -/
def dashedConfig : ProjectConfig :=
  ⟨⟨"tree-sitter-demo", "1.0-1", none, none, none, .empty⟩, [], .unset⟩

/-- The installer finds six parts, and the version is cut. -/
theorem dashed_version_cut :
    dashedConfig.validate = .ok () ∧
      (versionedWheel "1.0-1").version = dashedConfig.package.version ∧
      Tag.parse "cp38-abi3-linux_x86_64" = .ok (versionedWheel "1.0-1").tag ∧
      (versionedWheel "1.0-1").fileName = "tree_sitter_demo-1.0-1-cp38-abi3-linux_x86_64.whl" ∧
      fileNameParts (versionedWheel "1.0-1").fileName =
        some ["tree_sitter_demo", "1.0", "1", "cp38", "abi3", "linux_x86_64"] := by
  decide +kernel

end StableWheel
