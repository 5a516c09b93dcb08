import StableWheel.Command.Build
import StableWheel.Proofs.Text.Header

/-! What the metadata of a wheel reads as.

The values that a project gives are put behind the names of their fields as they are. A reader finds
each of them again, and no field but those that were meant, exactly when none of the values has a
line end in it (`metadata_read_iff`); nothing sees to it that they have none
(`line_end_misreads`). -/
namespace StableWheel
open Text.Header (LineEnds Plain Unbroken read written read_written_iff)

namespace PackageSection

/-- The fields that metadata should have: what the project says, under the name that it has there,
and nothing for what it does not say. -/
def headerFields (s : PackageSection) : List (String × String) :=
  [("Metadata-Version", "2.1"), ("Name", s.name), ("Version", s.version)]
    ++ (match s.summary with
      | some text => [("Summary", text)]
      | none => [])
    ++ (match s.requiresPython with
      | some text => [("Requires-Python", text)]
      | none => [])

/-- The texts of a project that end up in metadata. -/
def texts (s : PackageSection) : List String :=
  s.name :: s.version :: (s.summary.toList ++ s.requiresPython.toList)

theorem headerFields_plain (s : PackageSection) :
    ∀ f ∈ s.headerFields, Plain f.1 := by
  have hnames : ∀ name ∈ ["Metadata-Version", "Name", "Version", "Summary", "Requires-Python"],
      Plain name := by
    decide +kernel
  intro f hf
  refine hnames f.1 ?_
  unfold headerFields at hf
  cases s.summary <;> cases s.requiresPython <;> grind

/-- No line ends in the version of the format, so what counts is what the project says. -/
theorem headerFields_unbroken_iff (ends : LineEnds) (s : PackageSection) :
    (∀ f ∈ s.headerFields, Unbroken ends f.2) ↔
      ∀ text ∈ s.texts, Unbroken ends text := by
  have hformat : Unbroken ends "2.1" := by
    cases ends <;> decide +kernel
  unfold headerFields texts
  cases s.summary <;> cases s.requiresPython <;> simp [hformat]

end PackageSection

theorem Plan.metadata_wheel (p : Plan) (platform : Option String) :
    (p.wheel platform).metadata = written p.config.package.headerFields := by
  unfold Wheel.metadata Wheel.metadataFields Plan.wheel PackageSection.headerFields written
  cases p.config.package.summary <;> cases p.config.package.requiresPython <;> rfl

/-- **Exactly when metadata says what the project says.** Whatever a project is called and whatever
else it says, a reader finds in the metadata of its wheel the version of the format, the name and
the version, then the summary and the versions of the language if these are given, each once and as
it was given, and nothing else, if and only if none of what is given has a line end in it. This
holds for readers that end a line at line feeds, and for those that do so at carriage returns too. -/
theorem metadata_read_iff (ends : LineEnds) (p : Plan) (platform : Option String) :
    read ends (p.wheel platform).metadata = p.config.package.headerFields ↔
      ∀ text ∈ p.config.package.texts, Unbroken ends text := by
  rw [p.metadata_wheel, read_written_iff ends p.config.package.headerFields_plain,
    PackageSection.headerFields_unbroken_iff]

/-! ### Values with line ends in them -/

/-- The description of a project with a version and a summary. -/
def describedAs (version summary : String) : String :=
  "[package]\nname='demo'\nversion=\"" ++ version ++ "\"\nsummary=\"" ++ summary ++ "\"\n"

/-- What is planned for a project without modules. -/
def summaryPlan (version summary : String) : Plan :=
  ⟨⟨"/p"⟩, ⟨⟨"demo", version, some summary, none, none, .empty⟩, [], .unset⟩, .unset,
    ⟨"/p/build"⟩, [], none⟩

/-- A summary in two lines makes one field more, and a version with a line end behind it takes the
summary away. -/
theorem line_end_misreads :
    (ProjectConfig.parse (describedAs "1.0" "A grammar\\nRequires-Dist: other") =
        .ok (summaryPlan "1.0" "A grammar\nRequires-Dist: other").config ∧
      read .feeds ((summaryPlan "1.0" "A grammar\nRequires-Dist: other").wheel none).metadata =
        [("Metadata-Version", "2.1"), ("Name", "demo"), ("Version", "1.0"),
          ("Summary", "A grammar"), ("Requires-Dist", "other")]) ∧
    ProjectConfig.parse (describedAs "1.0\\n" "A grammar") =
        .ok (summaryPlan "1.0\n" "A grammar").config ∧
      read .feeds ((summaryPlan "1.0\n" "A grammar").wheel none).metadata =
        [("Metadata-Version", "2.1"), ("Name", "demo"), ("Version", "1.0")] := by
  decide +kernel

end StableWheel
