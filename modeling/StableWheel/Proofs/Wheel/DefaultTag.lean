import StableWheel.Proofs.Wheel.Legible

/-! The tag that fits exactly one interpreter.

It is put together from what the interpreter says of itself: the letters of its family with the
digits of its version, the first two pieces of the name of its binary interface, and the name of its
platform. The letters tell the family again, none of the three parts can be taken for two, and the
whole is read back from its text (`default_tag_legible`), however the interpreter spells its name
and whatever else it says. -/
namespace StableWheel
open Text (Tight isBlank filledPieces)

/-- The pieces of the name of the binary interface that hold something. -/
def Report.segments (r : Report) : List String := (r.soabi.map (filledPieces '-')).getD []

namespace Tag

/-! ### Parts -/

theorem isPart_append {a b : String} (ha : IsPart a) (hb : '-' ∉ b.toList) : IsPart (a ++ b) := by
  constructor
  · rw [ne_eq, String.append_eq_empty_iff]
    exact fun h => ha.1 h.1
  · rw [String.toList_append, List.mem_append, not_or]
    exact ⟨ha.2, hb⟩

theorem isPart_of_mem_filledPieces {s piece : String} (h : piece ∈ filledPieces '-' s) :
    IsPart piece := by
  obtain ⟨hpiece, hfilled⟩ := List.mem_filter.mp h
  obtain ⟨cs, hcs, rfl⟩ := List.mem_map.mp hpiece
  refine ⟨by simpa using hfilled, ?_⟩
  rw [String.toList_ofList]
  exact (Text.of_mem_splitOn hcs).1

/-- Dots give way to underscores, and no dash comes up. -/
theorem isPart_undotted {s : String} (h : IsPart s) :
    IsPart (Text.replaceIf (· == '.') '_' s) := by
  rw [Text.replaceIf, isPart_ofList_iff]
  refine ⟨by simpa using toList_ne_nil h, fun hmem => ?_⟩
  obtain ⟨c, hc, hdash⟩ := List.mem_map.mp hmem
  split at hdash
  · cases hdash
  · exact h.2 (hdash ▸ hc)

/-! ### The interpreter -/

theorem isPart_marker {family : Family} {letters : String} (h : family.marker = some letters) :
    IsPart letters := by
  cases family <;> cases h <;> exact ⟨by decide, by decide⟩

theorem marker_front {family : Family} {letters : String} (h : family.marker = some letters) :
    ∀ c, letters.toList.head? = some c → isBlank c = false := by
  cases family <;> cases h <;> rintro c ⟨⟩ <;> decide

theorem exists_marker {family : Family} (h : family ≠ .unknown) :
    ∃ letters, family.marker = some letters := by
  cases family with
  | unknown => exact absurd rfl h
  | _ => exact ⟨_, rfl⟩

section
variable {r : Report} {platform : Option String}

theorem interpreter_ofReport {letters : String} (h : r.family.marker = some letters) :
    (ofReport r platform).interpreter = letters ++ r.version.tagDigits := by
  rw [ofReport, h, Option.getD_some]

/-- The letters of a family that is known tell it again. -/
theorem ofTag_ofReport (h : r.family ≠ .unknown) :
    Family.ofTag (ofReport r platform).interpreter = r.family := by
  obtain ⟨letters, hletters⟩ := exists_marker h
  rw [Family.ofTag_eq_iff hletters, interpreter_ofReport hletters, String.toList_append]
  exact List.prefix_append _ _

/-! ### The binary interface -/

/-- The binary interface part for the pieces of a name. -/
def abiOfSegments (family : Family) (version : Version) : List String → String
  | first :: second :: _ =>
    if family = .cpython ∧ first = "cpython" then "cp" ++ second
    else Text.replaceIf (· == '.') '_' (first ++ "_" ++ second)
  | _ => abiFallback family version

theorem abi_ofReport :
    (ofReport r platform).abi = abiOfSegments r.family r.version r.segments := by
  change (r.soabi.bind (abiOf r.family)).getD (abiFallback r.family r.version) = _
  rw [Report.segments]
  cases r.soabi with
  | none => rfl
  | some soabi =>
    rw [Option.bind_some, Option.map_some, Option.getD_some]
    unfold abiOf
    rcases filledPieces '-' soabi with _ | ⟨first, _ | ⟨second, rest⟩⟩
    · rfl
    · rfl
    · rw [abiOfSegments]
      dsimp only
      split <;> rfl

theorem abiFallback_eq (family : Family) (version : Version) :
    abiFallback family version =
      if family = .cpython then "cp" ++ version.tagDigits else "none" := by
  cases family <;> rfl

/-- A name of fewer than two pieces might as well not be there. -/
theorem abiOfSegments_short {family : Family} {version : Version} {segments : List String}
    (h : segments.length < 2) :
    abiOfSegments family version segments =
      if family = .cpython then "cp" ++ version.tagDigits else "none" := by
  rw [← abiFallback_eq]
  rcases segments with _ | ⟨first, _ | ⟨second, rest⟩⟩
  · rfl
  · rfl
  · simp only [List.length_cons] at h
    omega

/-- Of a longer name only the first two pieces count, and the version does not. -/
theorem abiOfSegments_congr {family : Family} {version version' : Version}
    {segments segments' : List String} (h : 2 ≤ segments.length)
    (hsame : segments'.take 2 = segments.take 2) :
    abiOfSegments family version' segments' = abiOfSegments family version segments := by
  obtain ⟨first, second, rest, rfl⟩ : ∃ first second rest, segments = first :: second :: rest := by
    rcases segments with _ | ⟨first, _ | ⟨second, rest⟩⟩
    · simp at h
    · simp at h
    · exact ⟨first, second, rest, rfl⟩
  rcases segments' with _ | ⟨first', _ | ⟨second', rest'⟩⟩
  · simp at hsame
  · simp at hsame
  · obtain ⟨rfl, rfl⟩ : first' = first ∧ second' = second := by simpa using hsame
    rfl

theorem isPart_abiOfSegments {family : Family} {version : Version} {segments : List String}
    (h : ∀ piece ∈ segments, IsPart piece) : IsPart (abiOfSegments family version segments) := by
  have hletters : IsPart "cp" := ⟨by decide, by decide⟩
  unfold abiOfSegments
  split
  · next first second rest =>
    have hfirst := h first (by simp)
    have hsecond := h second (by simp)
    split
    · exact isPart_append hletters hsecond.2
    · refine isPart_undotted (isPart_append (isPart_append hfirst ?_) hsecond.2)
      decide
  · rw [abiFallback_eq]
    split
    · exact isPart_append hletters (Version.letter_not_mem_tagDigits (by decide) version)
    · exact ⟨by decide, by decide⟩

theorem isPart_of_mem_segments {piece : String} (h : piece ∈ r.segments) : IsPart piece := by
  rw [Report.segments] at h
  cases hsoabi : r.soabi with
  | none => simp [hsoabi] at h
  | some soabi =>
    rw [hsoabi, Option.map_some, Option.getD_some] at h
    exact isPart_of_mem_filledPieces h

/-! ### The platform -/

/-- What a platform is called in a tag. -/
structure PlatformName (name : String) : Prop where
  tight : Tight name.toList
  plain : ∀ c ∈ name.toList, c ≠ '-' ∧ c ≠ '.' ∧ c ≠ ' '

theorem platformName_normalizePlatform (name : String) : PlatformName (normalizePlatform name) := by
  refine ⟨⟨fun c hc => ?_, normalizePlatform_back name⟩, fun c hc => ?_⟩
  · rw [normalizePlatform_toList, List.head?_map] at hc
    obtain ⟨first, hfirst, rfl⟩ := Option.map_eq_some_iff.mp hc
    split
    · decide
    · exact (Text.tight_trimmed _).front first hfirst
  · rw [normalizePlatform_toList] at hc
    obtain ⟨c, -, rfl⟩ := List.mem_map.mp hc
    split
    · decide
    · next hother => simpa [not_or, and_assoc] using hother

/-- A name that stands in a tag already stays as it is. -/
theorem PlatformName.normalize {name : String} (h : PlatformName name) :
    normalizePlatform name = name := by
  rw [← String.toList_inj, normalizePlatform_toList, Text.trimmed_of_tight h.tight]
  refine (List.map_congr_left fun c hc => ?_).trans (List.map_id _)
  obtain ⟨hdash, hdot, hspace⟩ := h.plain c hc
  simp [hdash, hdot, hspace]

theorem PlatformName.isPart {name : String} (h : PlatformName name) (hne : name ≠ "") :
    IsPart name :=
  ⟨hne, fun hdash => (h.plain '-' hdash).1 rfl⟩

/-! ### All of it -/

theorem headed_ofReport (h : r.family ≠ .unknown) : (ofReport r platform).Headed := by
  obtain ⟨letters, hletters⟩ := exists_marker h
  have hinterpreter : (ofReport r platform).interpreter = letters ++ r.version.tagDigits :=
    interpreter_ofReport hletters
  constructor
  · rw [hinterpreter]
    exact isPart_append (isPart_marker hletters)
      (Version.letter_not_mem_tagDigits (by decide) r.version)
  · rw [abi_ofReport]
    exact isPart_abiOfSegments fun piece => isPart_of_mem_segments
  · intro c hc
    rw [hinterpreter, String.toList_append,
      List.head?_append_of_ne_nil _ (toList_ne_nil (isPart_marker hletters))] at hc
    exact marker_front hletters c hc

end
end Tag

/-- **Default tags are legible.** Whatever an interpreter of a known family says of itself, and
whatever platform is asked for, as long as something is left of its name: the tag that fits this
interpreter opens with the letters of its family and of no other, it has three parts, none of them
empty or with a dash in it, and it is read back from its text. The name of the binary interface does
not count if fewer than two pieces of it hold something; otherwise only the first two of these and
the family do. The name of the platform would not be changed again. -/
theorem default_tag_legible (r : Report) (platform : Option String)
    (hknown : r.family ≠ .unknown)
    (hnamed : Tag.normalizePlatform (platform.getD r.platform) ≠ "") :
    Family.ofTag (Tag.ofReport r platform).interpreter = r.family ∧
      (Tag.ofReport r platform).Composed ∧
      Tag.parse (Tag.ofReport r platform).text = .ok (Tag.ofReport r platform) ∧
      (r.segments.length < 2 → (Tag.ofReport r platform).abi =
        if r.family = .cpython then "cp" ++ r.version.tagDigits else "none") ∧
      (2 ≤ r.segments.length → ∀ (r' : Report) (platform' : Option String),
        r'.family = r.family → r'.segments.take 2 = r.segments.take 2 →
          (Tag.ofReport r' platform').abi = (Tag.ofReport r platform).abi) ∧
      Tag.normalizePlatform (Tag.ofReport r platform).platform =
        (Tag.ofReport r platform).platform := by
  have hheaded : (Tag.ofReport r platform).Headed := Tag.headed_ofReport hknown
  have hplatform : Tag.PlatformName (Tag.ofReport r platform).platform :=
    Tag.platformName_normalizePlatform _
  have hpart := hplatform.isPart hnamed
  refine ⟨Tag.ofTag_ofReport hknown, ⟨hheaded.interpreter, hheaded.abi, hpart⟩,
    (hheaded.parse_text_iff hplatform.tight.back).mpr ⟨rfl, hpart⟩, fun hshort => ?_,
    fun hlong r' platform' hfamily hsame => ?_, hplatform.normalize⟩
  · rw [Tag.abi_ofReport, Tag.abiOfSegments_short hshort]
  · rw [Tag.abi_ofReport, Tag.abi_ofReport, hfamily, Tag.abiOfSegments_congr hlong hsame]

/-- What an interpreter reports that is careless about its names. -/
def spelledReport : Report :=
  ⟨" PyPy", 3, 9, some "-pypy39--pp7.3-x86_64", ⟨"/usr/include"⟩, " linux-x86.64\t", none, ⟨"/usr"⟩⟩

/-- Its tag is as legible as any. -/
theorem spelled_tag_legible :
    spelledReport.family = .pypy ∧
      (Tag.ofReport spelledReport none).text = "pp39-pypy39_pp7_3-linux_x86_64" ∧
      Tag.parse "pp39-pypy39_pp7_3-linux_x86_64" = .ok (Tag.ofReport spelledReport none) := by
  have hfamily : spelledReport.family = .pypy := by decide +kernel
  have htext : (Tag.ofReport spelledReport none).text = "pp39-pypy39_pp7_3-linux_x86_64" := by
    decide +kernel
  have hknown : spelledReport.family ≠ .unknown := by
    rw [hfamily]
    decide
  have hlegible := default_tag_legible spelledReport none hknown (by decide +kernel)
  exact ⟨hfamily, htext, htext ▸ hlegible.2.2.1⟩

end StableWheel
