import StableWheel.Proofs.Command.Grounds
import StableWheel.Proofs.Command.Leftovers
import StableWheel.Proofs.Wheel.Purity

/-! What a wheel is labelled with.

A wheel that `bdist-wheel` makes carries its tag in its name and in a file of its own, and says there
whether it is pure. It says so exactly if the project declares no modules (`pure_wheel_iff`); and if
it does, `tag` prints the tag that the wheel carries in both places, as long as it hears the same of
the interpreter and of the platform (`printed_tag_labels_wheel`). -/
namespace StableWheel
open Text.Header (value? Unbroken)

/-- Where no name is taken twice, each member is the one of its name. -/
theorem holds_of_nodup {members : List Archive.Member} (hnodup : (members.map (·.name)).Nodup)
    {m : Archive.Member} (hm : m ∈ members) : Holds members m.name m.content :=
  ⟨m, hm, rfl, rfl, fun _ hm' hname => List.inj_on_of_nodup_map hnodup hm' hm hname⟩

section
variable {h : Host} {options : BuildOptions} {dist : Option Path} {platform : Option String}
  {debug : Bool} {fs : FileSystem}

/-- A run that ends well has followed a plan, and its wheel holds what is known of it. -/
theorem bdistWheel_describes
    (hok : (Request.run h ⟨.bdistWheel options dist platform, debug⟩ fs).exit = 0) :
    ∃ p members, Planned h options fs p ∧ p.Wheeled h options dist platform debug fs members ∧
      Holds members (p.wheel (chosenPlatform h platform)).wheelFileName
        (p.wheel (chosenPlatform h platform)).wheelFile.toUTF8 := by
  obtain ⟨_, _, hrun, -, -⟩ := bdistWheel_ok rfl hok
  obtain ⟨p, ready, -, -, -, -, -, hready, -⟩ := packProject_ok hrun
  obtain ⟨-, packing, wheel, left, hpacking, hpack, hfiles⟩ := bdistWheel_packs hready hok
  obtain ⟨room, name, started, tree, staged, -, hwritten, -, hnodup, -⟩ := Wheel.pack_written hpack
  have hmember : wheelMember (p.wheel (chosenPlatform h platform)).wheelFileName
      (p.wheel (chosenPlatform h platform)).wheelFile.toUTF8 ∈
        (p.wheel (chosenPlatform h platform)).description := by
    simp [Wheel.description]
  refine ⟨p, staged ++ (p.wheel (chosenPlatform h platform)).description ++
      [(p.wheel (chosenPlatform h platform)).listing
        (staged ++ (p.wheel (chosenPlatform h platform)).description)],
    congrArg Prod.fst hready, ?_,
    holds_of_nodup hnodup (List.mem_append_left _ (List.mem_append_right _ hmember))⟩
  unfold Plan.Wheeled Plan.builtOn
  rw [hready, hfiles, ← Wheel.pack_path hpack, ← hpacking]
  exact hwritten

/-- Whoever plans to compile something has asked an interpreter, and nobody else has. -/
theorem Planned.report_eq_none_iff {p : Plan} (hp : Planned h options fs p) :
    p.report = none ↔ p.config.extensions = [] := by
  rcases ProjectConfig.asked_iff.mp (planned_iff_grounds.mp hp).report with
    ⟨hnil, hnone⟩ | ⟨hne, r, hr, -⟩
  · exact iff_of_true hnone hnil
  · exact iff_of_false (by simp [hr]) hne

/-- **A wheel is pure exactly if nothing is declared to be compiled.** Whatever the project, the
machine, its variables and its interpreters are, the wheel of a run that ends well holds a file that
says that it is pure if the project declares no modules, and that it is not if it declares any. Its
tag is the one of pure wheels only in the first case, and so is the tag that is read in that file,
unless there is the end of a line in it. -/
theorem pure_wheel_iff
    (hok : (Request.run h ⟨.bdistWheel options dist platform, debug⟩ fs).exit = 0) :
    ∃ p members, Planned h options fs p ∧ p.Wheeled h options dist platform debug fs members ∧
      Holds members (p.wheel (chosenPlatform h platform)).wheelFileName
        (p.wheel (chosenPlatform h platform)).wheelFile.toUTF8 ∧
      (∀ ends,
        (value? ends (p.wheel (chosenPlatform h platform)).wheelFile "Root-Is-Purelib" =
          some "true" ↔ p.config.extensions = []) ∧
        (value? ends (p.wheel (chosenPlatform h platform)).wheelFile "Root-Is-Purelib" =
          some "false" ↔ p.config.extensions ≠ []) ∧
        (p.config.extensions = [] → value? ends (p.wheel (chosenPlatform h platform)).wheelFile
          "Tag" = some "py3-none-any") ∧
        (Unbroken ends (p.wheel (chosenPlatform h platform)).tag.text →
          (value? ends (p.wheel (chosenPlatform h platform)).wheelFile "Tag" =
            some "py3-none-any" ↔ p.config.extensions = []))) ∧
      ((p.wheel (chosenPlatform h platform)).tag = Tag.pure ↔ p.config.extensions = []) ∧
      ((p.wheel (chosenPlatform h platform)).tag.text = "py3-none-any" ↔
        p.config.extensions = []) := by
  obtain ⟨p, members, hp, hwheeled, hholds⟩ := bdistWheel_describes hok
  have htag : (p.wheel (chosenPlatform h platform)).tag = Tag.pure ↔ p.config.extensions = [] :=
    (Tag.ofWheel_eq_pure_iff p.report _).trans hp.report_eq_none_iff
  have htext : (p.wheel (chosenPlatform h platform)).tag.text = "py3-none-any" ↔
      p.config.extensions = [] :=
    (Tag.text_ofWheel_iff p.report _).trans hp.report_eq_none_iff
  have hread : ∀ ends, Unbroken ends (p.wheel (chosenPlatform h platform)).tag.text →
      (value? ends (p.wheel (chosenPlatform h platform)).wheelFile "Tag" = some "py3-none-any" ↔
        p.config.extensions = []) := by
    intro ends hline
    rw [Wheel.value?_tag hline, Option.some.injEq]
    exact htext
  refine ⟨p, members, hp, hwheeled, hholds, fun ends => ?_, htag, htext⟩
  rw [Wheel.value?_purelib, Wheel.isPure]
  by_cases hpure : (p.wheel (chosenPlatform h platform)).tag = Tag.pure
  · have hline : Unbroken ends (p.wheel (chosenPlatform h platform)).tag.text := by
      rw [hpure]
      exact Wheel.unbroken_pure ends
    exact ⟨by simp [hpure, htag.mp hpure], by simp [hpure, htag.mp hpure],
      (hread ends hline).mpr, hread ends⟩
  · have hsome : p.config.extensions ≠ [] := mt htag.mpr hpure
    exact ⟨by simp [hpure, hsome], by simp [hpure, hsome], fun hnone => absurd hnone hsome,
      hread ends⟩

end

/-- What asks for a wheel for any platform. -/
def anyRequest : Request := ⟨.bdistWheel ⟨⟨"."⟩, none, none, false⟩ none (some "any"), false⟩

theorem anyRequest_ok : (anyRequest.run (sampleHost writeModule) tameProject).exit = 0 := by
  decide +kernel

/-- A compiled wheel for any platform is no pure wheel. -/
theorem compiled_for_any :
    ∃ members, tamePlan.Wheeled (sampleHost writeModule) ⟨⟨"."⟩, none, none, false⟩ none
        (some "any") false tameProject members ∧
      Holds members "demo-1.dist-info/WHEEL" (tamePlan.wheel (some "any")).wheelFile.toUTF8 ∧
      value? .feeds (tamePlan.wheel (some "any")).wheelFile "Root-Is-Purelib" = some "false" ∧
      value? .feeds (tamePlan.wheel (some "any")).wheelFile "Tag" ≠ some "py3-none-any" ∧
      (tamePlan.wheel (some "any")).tag.text = "cp38-abi3-any" := by
  obtain ⟨p, members, hp, hwheeled, hholds, hpurity, -⟩ := pure_wheel_iff anyRequest_ok
  obtain rfl := planned_tamePlan.mp hp
  have hname : (tamePlan.wheel (some "any")).wheelFileName = "demo-1.dist-info/WHEEL" := by
    decide +kernel
  have hcompiles : tamePlan.config.extensions ≠ [] := by simp [tamePlan]
  have htag : (tamePlan.wheel (some "any")).tag.text = "cp38-abi3-any" := by decide +kernel
  have hline : Unbroken .feeds (tamePlan.wheel (some "any")).tag.text := by
    rw [htag]
    decide
  obtain ⟨-, hfalse, -, hread⟩ := hpurity .feeds
  exact ⟨members, hwheeled, hname ▸ hholds, hfalse.mpr hcompiles,
    mt (hread hline).mp hcompiles, htag⟩

/-! ### Printed tags -/

/-- A tag that is known is printed in its stable form; whether there is a note about this form makes
no difference. -/
theorem tellTag_run (t : Tag) (s : Session) :
    ∃ left, (do
        Task.note ("default tag " ++ t.text)
        noteRewriting t
        Task.print (t.stabilised Version.stableMinimum).text : Task CommandError Unit).run s =
          (.ok (), left) ∧
      left.printed = s.printed ++ [(t.stabilised Version.stableMinimum).text] := by
  rw [Task.run_bind, Task.run_note]
  dsimp only
  obtain ⟨noted, hnoted, -, hprinted⟩ := noteRewriting_run (ε := CommandError) t
    { s with notes := s.notes ++ ["default tag " ++ t.text] }
  rw [Task.run_bind, hnoted]
  exact ⟨_, rfl, by rw [hprinted]⟩

theorem printTag_run {h : Host} {python : Option String} {fs : FileSystem} {report : Report}
    (hr : Reported h python fs report) (platform : Option String) :
    ∃ left, (printTag h none platform python).run (h.session fs) = (.ok (), left) ∧
      left.printed = [(Tag.ofWheel (some report) (chosenPlatform h platform)).text] := by
  obtain ⟨asked, hasked⟩ : ∃ asked,
      (introspect h python).run (h.session fs) = (.ok report, asked) :=
    ⟨_, Prod.ext (((introspect_asks python).gives fs _ rfl).trans hr) rfl⟩
  have hquiet : asked.printed = [] := by
    have hsilent := (introspect_asks (h := h) python).silent (h.session fs)
    rwa [hasked] at hsilent
  obtain ⟨left, hleft, hprinted⟩ :=
    tellTag_run (Tag.ofReport report (chosenPlatform h platform)) asked
  refine ⟨left, ?_, by rw [hprinted, hquiet]; rfl⟩
  unfold printTag
  dsimp only
  rw [Task.run_bind, hasked]
  dsimp only
  rw [Task.run_bind, Task.run_pure]
  exact hleft

/-- What `tag` prints of an interpreter. -/
theorem tag_prints {h : Host} {python : Option String} {fs : FileSystem} {report : Report}
    (hr : Reported h python fs report) (platform : Option String) (debug : Bool) :
    (Request.run h ⟨.tag none platform python, debug⟩ fs).exit = 0 ∧
      (Request.run h ⟨.tag none platform python, debug⟩ fs).printed =
        [(Tag.ofWheel (some report) (chosenPlatform h platform)).text] := by
  obtain ⟨left, hrun, hprinted⟩ := printTag_run hr platform
  rw [Request.run, Command.run, hrun]
  exact ⟨rfl, hprinted⟩

/-- A compiled wheel carries a tag: it comes last in the wheel's own file, and in the wheel's name
behind the name and the version of the project. -/
structure Wheel.Labelled (w : Wheel) (members : List Archive.Member) (tag : String) : Prop where
  file : Holds members w.wheelFileName
    ("Wheel-Version: 1.0\nGenerator: wheelwright 0.1.0\nRoot-Is-Purelib: false\nTag: " ++ tag
      ++ "\n").toUTF8
  name : w.fileName = w.distName ++ "-" ++ w.version ++ "-" ++ tag ++ ".whl"

/-- **`tag` prints what a wheel is labelled with.** If `bdist-wheel` ends well and modules are
declared, an interpreter has said something of itself; and wherever `tag` hears the same of one and
the same is asked for the platform, it prints one line, and this is the tag that the wheel's own
file ends with and the tag in the wheel's name. -/
theorem printed_tag_labels_wheel {h : Host} {options : BuildOptions} {dist : Option Path}
    {platform : Option String} {debug : Bool} {fs : FileSystem}
    (hok : (Request.run h ⟨.bdistWheel options dist platform, debug⟩ fs).exit = 0) :
    ∃ p members, Planned h options fs p ∧ p.Wheeled h options dist platform debug fs members ∧
      (p.config.extensions ≠ [] → ∃ report, Reported h options.python fs report ∧
        ∀ python' debug' fs', Reported h python' fs' report →
          ∃ line,
            (Request.run h ⟨.tag none platform python', debug'⟩ fs').exit = 0 ∧
            (Request.run h ⟨.tag none platform python', debug'⟩ fs').printed = [line] ∧
            (p.wheel (chosenPlatform h platform)).Labelled members line) := by
  obtain ⟨p, members, hp, hwheeled, hholds⟩ := bdistWheel_describes hok
  refine ⟨p, members, hp, hwheeled, fun hcompiles => ?_⟩
  obtain ⟨hnil, -⟩ | ⟨-, report, hreport, hreported⟩ :=
    ProjectConfig.asked_iff.mp (planned_iff_grounds.mp hp).report
  · exact absurd hnil hcompiles
  refine ⟨report, hreported, fun python' debug' fs' hr => ?_⟩
  obtain ⟨hexit, hprinted⟩ := tag_prints hr platform debug'
  have htag : (p.wheel (chosenPlatform h platform)).tag =
      Tag.ofWheel (some report) (chosenPlatform h platform) := by
    rw [← hreport]
    rfl
  have hcompiled : (p.wheel (chosenPlatform h platform)).tag ≠ Tag.pure := by
    rw [htag]
    exact fun hpure => nomatch (Tag.ofWheel_eq_pure_iff _ _).mp hpure
  refine ⟨_, hexit, hprinted, ?_, ?_⟩
  · rwa [Wheel.wheelFile_compiled hcompiled, htag] at hholds
  · rw [← htag]
    rfl

/-- What `tag` prints when it is asked for any platform too. -/
theorem any_wheel_labelled :
    (Request.run (sampleHost writeModule) ⟨.tag none (some "any") none, false⟩
        tameProject).printed = ["cp38-abi3-any"] ∧
      ∃ members, tamePlan.Wheeled (sampleHost writeModule) ⟨⟨"."⟩, none, none, false⟩ none
          (some "any") false tameProject members ∧
        (tamePlan.wheel (some "any")).Labelled members "cp38-abi3-any" := by
  have hprinted : (Request.run (sampleHost writeModule) ⟨.tag none (some "any") none, false⟩
      tameProject).printed = ["cp38-abi3-any"] := by
    decide +kernel
  obtain ⟨p, members, hp, hwheeled, hlabelled⟩ := printed_tag_labels_wheel anyRequest_ok
  obtain rfl := planned_tamePlan.mp hp
  obtain ⟨report, hreported, hlabels⟩ := hlabelled (by simp [tamePlan])
  obtain ⟨line, -, hline, hlabel⟩ := hlabels none false tameProject hreported
  obtain rfl : "cp38-abi3-any" = line := (List.cons.inj (hprinted.symm.trans hline)).1
  exact ⟨hprinted, members, hwheeled, hlabel⟩

end StableWheel
