import StableWheel.Proofs.Command.Labels
import StableWheel.Proofs.Wheel.Legible

/-! Printing a tag that is given.

`tag` reads the tag that it is given, puts another platform into it and prints its stable form. What
it prints is a tag in this form already, so that `tag` prints it again as it is: exactly if no blank
platform was asked for (`printed_tag_again_iff`). A blank one leaves nothing for the last part. -/
namespace StableWheel

namespace Environment

/-- A variable that says nothing counts as unset. -/
theorem allBlank_setting {env : Environment} {name value : String}
    (h : env.setting name = some value) : Text.allBlank value = false := by
  have hfilled := (Option.filter_eq_some_iff.mp h).2
  simpa using hfilled

end Environment

/-- What is printed for a tag. -/
def printedTag (h : Host) (t : Tag) (platform : Option String) : Tag :=
  (t.onPlatform (chosenPlatform h platform)).stabilised Version.stableMinimum

section
variable {text : String} (h : Host) (platform python : Option String) (debug : Bool)
  (fs : FileSystem)

theorem tag_from_refused {m : Tag.Malformed} (hm : Tag.parse text = .error m) :
    (Request.run h ⟨.tag (some text) platform python, debug⟩ fs).exit = 1 := by
  have hrun : (printTag h (some text) platform python).run (h.session fs) =
      (.error (.badTag m), h.session fs) := by
    unfold printTag
    dsimp only
    rw [hm, Task.run_bind, Task.run_ofExcept]
    rfl
  rw [Request.run, Command.run, hrun]

theorem tag_from_prints {t : Tag} (ht : Tag.parse text = .ok t) :
    (Request.run h ⟨.tag (some text) platform python, debug⟩ fs).exit = 0 ∧
      (Request.run h ⟨.tag (some text) platform python, debug⟩ fs).printed =
        [(printedTag h t platform).text] := by
  obtain ⟨left, hleft, hprinted⟩ :=
    tellTag_run (t.onPlatform (chosenPlatform h platform)) (h.session fs)
  have hrun : (printTag h (some text) platform python).run (h.session fs) = (.ok (), left) := by
    unfold printTag
    dsimp only
    rw [ht, Task.run_bind, Task.run_ofExcept]
    exact hleft
  rw [Request.run, Command.run, hrun]
  exact ⟨rfl, hprinted⟩

/-- A text that does not start with a dash can stand behind `--from`. -/
theorem read_from {u : String} (h : u.toList.head? ≠ some '-') :
    Request.read ["tag", "--from", u] = .ok ⟨.tag (some u) none none, false⟩ := by
  have hword : Argument.of u = .word := by
    unfold Argument.of
    split
    · next hu => exact absurd (by rw [hu]; rfl) h
    · next hu => exact absurd (by rw [hu]; rfl) h
    · next hu => exact absurd (by rw [hu]; rfl) h
    · rfl
  have hverb : Verb.named "tag" = some .tag := by decide +kernel
  have hoption : takeArgument .tag .nothing .anything "--from" =
      .ok (.nothing, .value "from" .text) := by
    decide +kernel
  have hvalue : takeArgument .tag .nothing (.value "from" .text) u =
      .ok (⟨[("from", u)], none⟩, .anything) := by
    unfold takeArgument
    rw [hword]
    rfl
  have hrest : takeArguments .tag .nothing .anything ["--from", u] = .ok ⟨[("from", u)], none⟩ := by
    rw [takeArguments, hoption]
    change takeArguments .tag .nothing (.value "from" .text) [u] = _
    rw [takeArguments, hvalue]
    rfl
  rw [Request.read, Request.readFrom, hverb]
  dsimp only
  rw [hrest]
  rfl

end

/-! ### Printing again -/

/-- Only a platform that is given by hand can be blank: a blank variable counts as unset. -/
theorem chosenPlatform_filled_iff (h : Host) (platform : Option String) :
    (∀ p, chosenPlatform h platform = some p → Text.allBlank p = false) ↔
      ∀ p, platform = some p → Text.allBlank p = false := by
  cases platform with
  | none =>
    refine iff_of_true (fun p hp => ?_) nofun
    exact Environment.allBlank_setting hp
  | some p => rfl

section
variable {h : Host} {t : Tag} {platform : Option String}

theorem printedTag_headed (ht : t.Legible) : (printedTag h t platform).Headed :=
  (ht.headed.onPlatform _).stabilised _

/-- What is printed is read as what it is, unless a blank platform is asked for. -/
theorem parse_printedTag_iff (ht : t.Legible) {t' : Tag} :
    Tag.parse (printedTag h t platform).text = .ok t' ↔
      t' = printedTag h t platform ∧ ∀ p, platform = some p → Text.allBlank p = false := by
  have hplatform : (printedTag h t platform).platform =
      (t.onPlatform (chosenPlatform h platform)).platform := Tag.platform_stabilised _ _
  rw [(printedTag_headed ht).parse_text_iff (hplatform ▸ ht.onPlatform_back _), hplatform,
    ht.isPart_onPlatform_iff, chosenPlatform_filled_iff]

/-- The stable form is printed as it is where nothing is said about the platform. -/
theorem printedTag_again {h' : Host} (hunset : h'.environment.platformName = none) :
    printedTag h' (printedTag h t platform) none = printedTag h t platform := by
  have hnone : chosenPlatform h' none = none := hunset
  rw [printedTag, hnone]
  exact Tag.stabilised_stabilised _ _ _

end

/-- **Exactly when a printed tag is printed again.** Whatever tag is given and whatever is said about
the platform, the one line that `tag` prints when it ends well is accepted as a tag exactly if no
blank platform is asked for on the command line; and exactly then does `tag --from` with this line,
wherever nothing is said about the platform, end well too and print the same line again. -/
theorem printed_tag_again_iff {h : Host} {arguments : List String} {text : String}
    {platform python : Option String} {debug : Bool} {fs : FileSystem}
    (hread : Request.read arguments = .ok ⟨.tag (some text) platform python, debug⟩)
    (hok : (runLine h arguments fs).exit = 0) :
    ∃ u, (runLine h arguments fs).printed = [u] ∧
      ((∃ t, Tag.parse u = .ok t) ↔ ∀ p, platform = some p → Text.allBlank p = false) ∧
      ∀ h' fs', h'.environment.platformName = none →
        ((runLine h' ["tag", "--from", u] fs').exit = 0 ∧
            (runLine h' ["tag", "--from", u] fs').printed = [u] ↔
          ∀ p, platform = some p → Text.allBlank p = false) := by
  have hline : runLine h arguments fs =
      Request.run h ⟨.tag (some text) platform python, debug⟩ fs := by
    rw [runLine, hread]
  rw [hline] at hok ⊢
  rcases ht : Tag.parse text with m | t
  · rw [tag_from_refused h platform python debug fs ht] at hok
    cases hok
  have hlegible := Tag.parse_legible ht
  refine ⟨(printedTag h t platform).text, (tag_from_prints h platform python debug fs ht).2, ?_,
    fun h' fs' hunset => ?_⟩
  · simp [parse_printedTag_iff hlegible]
  have hagain : runLine h' ["tag", "--from", (printedTag h t platform).text] fs' =
      Request.run h' ⟨.tag (some (printedTag h t platform).text) none none, false⟩ fs' := by
    rw [runLine, read_from (printedTag_headed hlegible).text_front]
  rw [hagain]
  rcases ht' : Tag.parse (printedTag h t platform).text with m | t'
  · refine iff_of_false ?_ fun hfilled => ?_
    · rw [tag_from_refused h' none none false fs' ht']
      exact fun h => nomatch h.1
    · rw [(parse_printedTag_iff hlegible).mpr ⟨rfl, hfilled⟩] at ht'
      cases ht'
  · obtain ⟨rfl, hfilled⟩ := (parse_printedTag_iff hlegible).mp ht'
    have hprints := tag_from_prints h' none none false fs' ht'
    rw [printedTag_again hunset] at hprints
    exact iff_of_true hprints hfilled

/-- What puts the name of a platform into a tag. -/
def platformLine (platform : String) : List String :=
  ["tag", "--from", "cp310-cp310-linux_x86_64", "--plat-name", platform]

theorem audited_tag_again :
    (runLine (sampleHost writeModule) (platformLine "manylinux2014-x86.64") tameProject).printed =
        ["cp38-abi3-manylinux2014_x86_64"] ∧
      (runLine (sampleHost writeModule) ["tag", "--from", "cp38-abi3-manylinux2014_x86_64"]
        tameProject).printed = ["cp38-abi3-manylinux2014_x86_64"] := by
  have hread : Request.read (platformLine "manylinux2014-x86.64") =
      .ok ⟨.tag (some "cp310-cp310-linux_x86_64") (some "manylinux2014-x86.64") none, false⟩ := by
    decide +kernel
  have hok : (runLine (sampleHost writeModule) (platformLine "manylinux2014-x86.64")
      tameProject).exit = 0 := by
    decide +kernel
  have hprinted : (runLine (sampleHost writeModule) (platformLine "manylinux2014-x86.64")
      tameProject).printed = ["cp38-abi3-manylinux2014_x86_64"] := by
    decide +kernel
  obtain ⟨u, hu, -, hagain⟩ := printed_tag_again_iff hread hok
  obtain rfl : "cp38-abi3-manylinux2014_x86_64" = u := (List.cons.inj (hprinted.symm.trans hu)).1
  refine ⟨hprinted, ((hagain (sampleHost writeModule) tameProject rfl).mpr fun p hp => ?_).2⟩
  cases hp
  decide +kernel

/-- Without a name nothing follows the last dash, and what is printed is refused. -/
theorem nameless_platform_refused :
    (runLine (sampleHost writeModule) (platformLine "") tameProject).exit = 0 ∧
      (runLine (sampleHost writeModule) (platformLine "") tameProject).printed = ["cp38-abi3-"] ∧
      Tag.parse "cp38-abi3-" = .error ⟨"cp38-abi3-"⟩ ∧
      (runLine (sampleHost writeModule) ["tag", "--from", "cp38-abi3-"] tameProject).exit = 1 := by
  decide +kernel

end StableWheel
