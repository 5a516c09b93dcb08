import Mathlib.Algebra.Order.BigOperators.Group.List
import Mathlib.Data.List.Infix
import StableWheel.Project.Load
import StableWheel.Proofs.FileSystem.Around
import StableWheel.Proofs.FileSystem.Naming

/-! Whether the user's defaults may come from the project.

The file with the defaults is found by the variable for settings or else by the home directory. A
path that starts at the root and lies outside the working directory leads to the same file whatever
is in there (`load_congr`). The variable is taken as it is, though: the empty text and any other
relative path start in the working directory, that is in the project.

`load_indifferent_iff` puts it together: what is in the working directory makes no difference exactly
if nothing is to be read, or the file's path starts at the root, or no file can have this path. -/
namespace StableWheel

namespace FileSystem

/-! ### Paths that can lead somewhere -/

/-- A path that the system looks at, with no name in it that is too long. -/
structure Usable (p : Path) : Prop where
  checked : checkPath p = .ok ()
  short : ∀ name, Step.enter name ∈ Step.ofPath p → name.utf8ByteSize ≤ nameLimit

variable {fs : FileSystem} {ending : Ending} {start found : Location} {steps : List Step}

/-- What is behind a link is followed before the rest, so no name of the path is left out. -/
theorem Walk.short {links : Nat} (h : Walk fs ending links start steps found) :
    ∀ name, Step.enter name ∈ steps → name.utf8ByteSize ≤ nameLimit := by
  induction h with
  | here => exact nofun
  | stay _ ih | inside _ ih | up _ ih =>
    intro name hname
    exact ih name (by simpa using hname)
  | directory hp _ _ ih =>
    intro name hname
    rcases List.mem_cons.mp hname with heq | hname
    · cases heq
      exact hp.2
    · exact ih name hname
  | nothing hp _ | file hp _ | kept hp _ _ =>
    intro name hname
    cases List.mem_singleton.mp hname
    exact hp.2
  | followed hp _ _ _ ih =>
    intro name hname
    rcases List.mem_cons.mp hname with heq | hname
    · cases heq
      exact hp.2
    · exact ih name (List.mem_append_right _ hname)

theorem usable_of_find {p : Path} {place : Location} {n : Entry}
    (h : fs.find p ending = .ok (place, n)) : Usable p := by
  obtain ⟨hchecked, hw⟩ := resolve_iff.mp (find_iff.mp h).1
  exact ⟨hchecked, hw.short⟩

/-- The names that are entered on the way. -/
def entered? : Step → Option String
  | .enter name => some name
  | _ => none

/-- Where there are directories all along the way, they are gone through. -/
theorem Walk.of_directories {top names done : Location} {last : String} {links : Nat}
    (hdirs : ∀ front, front <+: names → fs.lookup (top ++ front) = some .directory)
    (hend : fs.lookup (top ++ names ++ [last]) = none ∨
      ∃ f, fs.lookup (top ++ names ++ [last]) = some (.file f))
    (hup : .up ∉ steps) (hnames : done ++ steps.filterMap entered? = names)
    (hshort : ∀ name, Step.enter name ∈ steps ++ [.enter last] → name.utf8ByteSize ≤ nameLimit) :
    Walk fs .followed links (top ++ done) (steps ++ [.enter last]) (top ++ names ++ [last]) := by
  have hpass : ∀ {name rest}, name.utf8ByteSize ≤ nameLimit → Passable .followed name rest :=
    fun hname => ⟨by simp, hname⟩
  induction steps generalizing done with
  | nil =>
    obtain rfl : done = names := by simpa using hnames
    have hlast := hshort last (by simp)
    rcases hend with hnone | ⟨f, hf⟩
    · exact .nothing (hpass hlast) hnone
    · exact .file (hpass hlast) hf
  | cons step rest ih =>
    have hup' : .up ∉ rest := fun hmem => hup (List.mem_cons_of_mem _ hmem)
    have hshort' : ∀ name, Step.enter name ∈ rest ++ [.enter last] →
        name.utf8ByteSize ≤ nameLimit :=
      fun name hname => hshort name (List.mem_cons_of_mem _ hname)
    cases step with
    | up => exact absurd (List.mem_cons_self ..) hup
    | stay => exact .stay (ih hup' hnames hshort')
    | inside => exact .inside (ih hup' hnames hshort')
    | enter name =>
      have hnames' : (done ++ [name]) ++ rest.filterMap entered? = names := by
        rw [← hnames]
        simp [entered?]
      have hnext := hdirs (done ++ [name]) ⟨_, hnames'⟩
      rw [← List.append_assoc] at hnext
      refine .directory (hpass (hshort name (List.mem_cons_self ..))) hnext ?_
      rw [List.append_assoc]
      exact ih hup' hnames' hshort'

/-! ### Two projects in the same surroundings -/

/-- Two file systems that are the same outside the working directory. -/
structure DifferInside (a b : FileSystem) : Prop where
  trees : a.IsTree ∧ b.IsTree
  tidy : a.Tidy ∧ b.Tidy
  outside : SameOutside a.workingDirectory a b

/-- A path that leads somewhere outside the working directory and does not pass through it. -/
def Outlying (fs : FileSystem) (p : Path) : Prop :=
  ∃ found, Around fs fs.workingDirectory (origin fs.workingDirectory p) (Step.ofPath p) found ∧
    ¬ fs.workingDirectory <+: found

theorem DifferInside.find {a b : FileSystem} (h : DifferInside a b) {p : Path}
    (hp : Outlying a p) : a.find p .followed = b.find p .followed := by
  obtain ⟨found, haround, hout⟩ := hp
  exact haround.find hout (.refl a) h.outside

/-- Directories within one another as the working directory, and nothing else. -/
def nested (top : String) (names : Location) : FileSystem where
  entries := names.inits.map fun front => (top :: front, .directory)
  workingDirectory := [top]

variable {top : String} {names : Location}

theorem mem_nested {place : Location} {n : Entry} :
    (place, n) ∈ (nested top names).entries ↔
      n = .directory ∧ ∃ front, front <+: names ∧ top :: front = place := by
  simp only [nested, List.mem_map, List.mem_inits, Prod.mk.injEq]
  constructor
  · rintro ⟨front, hfront, hplace, rfl⟩
    exact ⟨rfl, front, hfront, hplace⟩
  · rintro ⟨rfl, front, hfront, hplace⟩
    exact ⟨front, hfront, hplace, rfl⟩

theorem lookup_nested {place : Location} {n : Entry} (hroot : place ≠ []) :
    (nested top names).lookup place = some n ↔
      n = .directory ∧ ∃ front, front <+: names ∧ top :: front = place := by
  have hmem {m : Entry} (hm : (nested top names).entries.lookup place = some m) :
      (place, m) ∈ (nested top names).entries := by
    obtain ⟨before, after, heq, -⟩ := List.lookup_eq_some_iff.mp hm
    simp [heq]
  rw [lookup, if_neg hroot, ← mem_nested]
  refine ⟨hmem, fun hlisted => ?_⟩
  -- whatever is found for the place is a directory as well
  rcases hm : (nested top names).entries.lookup place with _ | m
  · simpa using List.lookup_eq_none_iff.mp hm _ hlisted
  · rw [(mem_nested.mp hlisted).1, (mem_nested.mp (hmem hm)).1]

theorem nested_directory {front : Location} (h : front <+: names) :
    (nested top names).lookup ([top] ++ front) = some .directory :=
  (lookup_nested (by simp)).mpr ⟨rfl, front, h, rfl⟩

/-- Nothing is below the innermost directory. -/
theorem nested_innermost (last : String) :
    (nested top names).lookup ([top] ++ names ++ [last]) = none := by
  rcases hl : (nested top names).lookup ([top] ++ names ++ [last]) with _ | n
  · rfl
  · obtain ⟨-, front, hfront, hplace⟩ := (lookup_nested (by simp)).mp hl
    obtain rfl : front = names ++ [last] := by simpa using hplace
    exact absurd hfront.length_le (by simp)

theorem nested_unlinked : Unlinked (nested top names) [] := by
  rintro (_ | ⟨name, rest⟩) target - hl
  · cases hl
  · exact absurd ((lookup_nested (List.cons_ne_nil _ _)).mp hl).1 (by simp)

theorem nested_tree : (nested top names).IsTree := by
  refine ⟨fun place name n hl => ?_, nested_directory List.nil_prefix⟩
  obtain ⟨-, front, hfront, hplace⟩ := (lookup_nested (by simp)).mp hl
  rcases List.eq_nil_or_concat front with rfl | ⟨before, last, rfl⟩
  · have hcut : [] ++ [top] = place ++ [name] := hplace
    obtain rfl : [] = place := (List.append_inj' hcut rfl).1
    exact lookup_root _
  · rw [List.concat_eq_append, ← List.cons_append] at hplace
    obtain rfl : top :: before = place := (List.append_inj' hplace rfl).1
    rw [List.concat_eq_append] at hfront
    exact nested_directory ((List.prefix_append before [last]).trans hfront)

theorem nodup_inits (names : Location) : names.inits.Nodup := by
  induction names with
  | nil => simp
  | cons name rest ih =>
    rw [List.inits_cons, List.nodup_cons]
    exact ⟨by simp, ih.map List.cons_injective⟩

theorem nested_tidy (h : Named (top :: names)) : (nested top names).Tidy where
  once := by
    rw [nested, List.map_map]
    exact (nodup_inits names).map List.cons_injective
  named := by
    rintro ⟨place, n⟩ he
    obtain ⟨-, front, hfront, rfl⟩ := mem_nested.mp he
    exact fun name hname => h name ((List.prefix_cons_inj top).mpr hfront |>.subset hname)
  working := fun name hname => h name (List.mem_cons.mpr (.inl (List.mem_singleton.mp hname)))

/-! ### Away from a name -/

/-- Steps that never enter a name right below the root do not lead there. -/
theorem around_of_absent {fs : FileSystem} (h : Unlinked fs []) {start : Location}
    {steps : List Step} (hsteps : .enter top ∉ steps) (hstart : ¬ [top] <+: start) :
    ∃ found, Around fs [top] start steps found ∧ ¬ [top] <+: found := by
  induction steps generalizing start with
  | nil => exact ⟨start, .here, hstart⟩
  | cons step rest ih =>
    have hrest : .enter top ∉ rest := fun hmem => hsteps (List.mem_cons_of_mem _ hmem)
    cases step with
    | stay =>
      obtain ⟨found, haround, hout⟩ := ih hrest hstart
      exact ⟨found, .stay haround, hout⟩
    | inside =>
      obtain ⟨found, haround, hout⟩ := ih hrest hstart
      exact ⟨found, .inside haround, hout⟩
    | up =>
      have hup : ¬ [top] <+: start.dropLast :=
        fun hin => hstart (hin.trans (List.dropLast_prefix start))
      obtain ⟨found, haround, hout⟩ := ih hrest hup
      exact ⟨found, .up haround, hout⟩
    | enter name =>
      have hnext : ¬ [top] <+: start ++ [name] := by
        rcases start with _ | ⟨first, more⟩
        · rw [List.nil_append, List.cons_prefix_cons]
          rintro ⟨rfl, -⟩
          exact hsteps (List.mem_cons_self ..)
        · rw [List.cons_append, List.cons_prefix_cons]
          rintro ⟨rfl, -⟩
          exact hstart (List.cons_prefix_cons.mpr ⟨rfl, List.nil_prefix⟩)
      obtain ⟨found, haround, hout⟩ := ih hrest hnext
      exact ⟨found, .enter hnext (fun target => h _ target List.nil_prefix) haround, hout⟩

/-- There is always a name that some steps do not enter. -/
theorem exists_absent (steps : List Step) : ∃ name, Nameable name ∧ .enter name ∉ steps := by
  -- one that is longer than all names there are
  let lengths := (steps.filterMap entered?).map String.length
  let name := String.ofList (List.replicate (lengths.sum + 3) 'w')
  have hlength : name.length = lengths.sum + 3 := by simp [name]
  have hother {other : String} (h : other.length < 3) : name ≠ other := by
    rintro rfl
    omega
  refine ⟨name, ⟨hother (by decide), hother (by decide), hother (by decide), ?_⟩, fun hmem => ?_⟩
  · simp [name]
  · have hin : name.length ∈ lengths :=
      List.mem_map_of_mem (List.mem_filterMap.mpr ⟨.enter name, hmem, rfl⟩)
    have hle := List.le_sum_of_mem hin
    omega

/-- A relative path that does not go up can lead to a file in the working directory, in surroundings
without anything else. -/
theorem exists_inside {p : Path} {last : String} (hlast : Nameable last)
    (husable : Usable (p.join ⟨last⟩)) (hrelative : p.isAbsolute = false)
    (hup : .up ∉ Step.named p) (avoided : List Step) (f : File) :
    ∃ top a b, DifferInside a b ∧ a.workingDirectory = [top] ∧ .enter top ∉ avoided ∧
      Unlinked a [] ∧ a.isFile (p.join ⟨last⟩) = false ∧
      ∃ place, b.find (p.join ⟨last⟩) .followed = .ok (place, .file f) := by
  obtain ⟨top, htop, habsent⟩ := exists_absent avoided
  let names := (Step.named p).filterMap entered?
  let place := [top] ++ names ++ [last]
  have hnamed : Named (top :: names) := by
    intro name hname
    rcases List.mem_cons.mp hname with rfl | hname
    · exact htop
    · obtain ⟨step, hstep, heq⟩ := List.mem_filterMap.mp hname
      cases step <;> cases heq
      exact Step.nameable_of_enter (List.mem_append_left _ hstep)
  have hsteps := Step.ofPath_join_name p hlast
  have horigin : origin [top] (p.join ⟨last⟩) = [top] ++ [] := by
    rw [origin_join hlast.isAbsolute, origin, hrelative, if_neg Bool.false_ne_true, List.append_nil]
  have hresolve {fs : FileSystem} (hworking : fs.workingDirectory = [top])
      (hdirs : ∀ front, front <+: names → fs.lookup ([top] ++ front) = some .directory)
      (hend : fs.lookup place = none ∨ ∃ f, fs.lookup place = some (.file f)) :
      fs.resolve (p.join ⟨last⟩) .followed = .ok place := by
    refine resolve_iff.mpr ⟨husable.checked, ?_⟩
    rw [hworking, horigin, hsteps]
    exact .of_directories hdirs hend hup rfl (hsteps ▸ husable.short)
  let a := nested top names
  let b := a.put place (.file f)
  have hlookup (other : Location) (hother : other ≠ place) : a.lookup other = b.lookup other :=
    (lookup_put_of_ne a place other _ hother).symm
  have hnew : b.lookup place = some (.file f) := lookup_put_self a place _ (by simp [place])
  refine ⟨top, a, b, ⟨⟨nested_tree, ?_⟩, ⟨nested_tidy hnamed, ?_⟩, rfl, ?_⟩, rfl, habsent,
    nested_unlinked, ?_, place, ?_⟩
  · exact nested_tree.put_in (nested_directory (List.prefix_refl names))
      (.inr (by rw [nested_innermost]; simp))
  · exact (nested_tidy hnamed).put (named_concat hnamed hlast) _
  · intro other hout
    exact hlookup other fun heq => hout ⟨names ++ [last], by rw [heq]; simp [place, a, nested]⟩
  · have hnone : a.lookup place = none := nested_innermost last
    have hfound : a.resolve (p.join ⟨last⟩) .followed = .ok place :=
      hresolve rfl (fun _ => nested_directory) (.inl hnone)
    simp [isFile, status, find, hfound, hnone, bind, Except.bind, Except.map]
  · refine find_iff.mpr ⟨hresolve rfl (fun front hfront => ?_) (.inr ⟨f, hnew⟩), hnew⟩
    rw [← hlookup _ fun heq => ?_]
    · exact nested_directory hfront
    · have hlength := congrArg List.length heq
      simp only [place, List.length_append, List.length_singleton] at hlength
      have := hfront.length_le
      omega

end FileSystem

/-! ### The file with the defaults -/

namespace UserDefaults
open FileSystem

/-- The file with the defaults in the user's directory. -/
def homeFile (h : Host) : Option Path :=
  (home h).map fun p => ((p.join ⟨".config"⟩).join ⟨"wheelwright"⟩).join ⟨"config.toml"⟩

/-- The file with the defaults in the directory that the variable for settings names. -/
def namedFile (h : Host) : Option Path :=
  (h.environment.text? "XDG_CONFIG_HOME").map fun s =>
    ((Path.mk s).join ⟨"wheelwright"⟩).join ⟨"config.toml"⟩

/-- The file that the defaults are read from. -/
def settingsFile (h : Host) : Option Path := (directory h).map fun d => d.join ⟨"config.toml"⟩

theorem settingsFile_eq (h : Host) : settingsFile h = (namedFile h).or (homeFile h) := by
  unfold settingsFile directory namedFile homeFile
  cases h.environment.text? "XDG_CONFIG_HOME" <;> cases home h <;> rfl

variable {h : Host} {fs a b : FileSystem} {p : Path}

theorem load_ignored (hignored : h.environment.ignoresDefaults = true) : load h fs = .ok .unset := by
  rw [load, if_pos hignored]

theorem load_none (hp : settingsFile h = none) : load h fs = .ok .unset := by
  unfold load
  rw [← settingsFile, hp]
  simp

theorem load_some (hread : h.environment.ignoresDefaults = false) (hp : settingsFile h = some p) :
    load h fs = if fs.isFile p then read fs p else .ok .unset := by
  unfold load
  rw [hread, if_neg Bool.false_ne_true, ← settingsFile, hp]

/-- What is read only depends on what the file's path leads to. -/
theorem load_congr (hp : settingsFile h = some p)
    (hsame : a.find p .followed = b.find p .followed) : load h a = load h b := by
  rcases hread : h.environment.ignoresDefaults with _ | _
  · rw [load_some hread hp, load_some hread hp]
    unfold read readText readFile isFile status
    rw [hsame]
  · rw [load_ignored hread, load_ignored hread]

/-- No file has a path that the system refuses. -/
theorem load_unusable (hp : settingsFile h = some p) (hunusable : ¬ Usable p) :
    load h fs = .ok .unset := by
  rcases hread : h.environment.ignoresDefaults with _ | _
  · have hnone : fs.isFile p = false := by
      unfold isFile status
      rcases hfind : fs.find p .followed with e | ⟨place, n⟩
      · rfl
      · exact absurd (usable_of_find hfind) hunusable
    rw [load_some hread hp, hnone, if_neg Bool.false_ne_true]
  · exact load_ignored hread

/-- What is in the working directory makes no difference, wherever this directory is, as long as the
user's own files lie outside: the one in the home directory, and the one that the variable for
settings names from the root. -/
def Indifferent (h : Host) : Prop :=
  ∀ a b, DifferInside a b → (∀ p, homeFile h = some p → Outlying a p) →
    (∀ p, namedFile h = some p → p.isAbsolute = true → Outlying a p) → load h a = load h b

/-- A file that the variable for settings names without saying where to start is looked for in the
working directory. -/
theorem not_indifferent (hread : h.environment.ignoresDefaults = false)
    {home : Path} (hhome : homeFile h = some home) (habsolute : home.isAbsolute = true)
    {s : String} (hs : h.environment.text? "XDG_CONFIG_HOME" = some s)
    (hrelative : (Path.mk s).isAbsolute = false) (hplain : .up ∉ Step.named ⟨s⟩)
    (husable : ∀ p, settingsFile h = some p → Usable p) : ¬ Indifferent h := by
  intro hindifferent
  let directory := (Path.mk s).join ⟨"wheelwright"⟩
  let file : File := ⟨.data ⟨#[0xff]⟩, false⟩
  have hname : Nameable "wheelwright" := by decide
  have hlast : Nameable "config.toml" := by decide
  have hnamed : namedFile h = some (directory.join ⟨"config.toml"⟩) := by rw [namedFile, hs]; rfl
  have hfile : settingsFile h = some (directory.join ⟨"config.toml"⟩) := by
    rw [settingsFile_eq, hnamed, Option.some_or]
  have hdirectory : directory.isAbsolute = false := by
    rw [Path.isAbsolute_join hname.isAbsolute, hrelative]
  have hup : .up ∉ Step.named directory := by
    rw [Step.named_join hname.isAbsolute, Step.named_of_name hname]
    simpa using hplain
  obtain ⟨top, a, b, hdiffer, hworking, habsent, hunlinked, hnone, place, hfound⟩ :=
    exists_inside hlast (husable _ hfile) hdirectory hup (Step.ofPath home) file
  have houtlying : Outlying a home := by
    rw [Outlying, hworking, origin, if_pos habsolute]
    exact around_of_absent hunlinked habsent (by simp)
  have hsame : load h a = load h b := by
    refine hindifferent a b hdiffer (fun p hp => ?_) fun p hp hroot => ?_
    · obtain rfl : home = p := by simpa [hhome] using hp
      exact houtlying
    · obtain rfl : directory.join ⟨"config.toml"⟩ = p := by simpa [hnamed] using hp
      rw [Path.isAbsolute_join (by decide), hdirectory] at hroot
      cases hroot
  have hunread : load h b =
      .error (.unreadable (directory.join ⟨"config.toml"⟩) .notText) := by
    have hbytes : Text.Utf8.strict? file.content.bytes = none := by decide
    rw [load_some hread hfile]
    simp [isFile, status, read, readText, readFile, hfound, hbytes, bind, Except.bind, Except.map,
      Except.mapError, throw, throwThe, MonadExceptOf.throw, pure, Except.pure]
  rw [load_some hread hfile, hnone, if_neg Bool.false_ne_true, hunread] at hsame
  cases hsame

theorem homeFile_of_home {t : String} (ht : h.environment.lenient "HOME" = some t)
    (habsolute : (Path.mk t).isAbsolute = true) :
    ∃ home, homeFile h = some home ∧ home.isAbsolute = true := by
  have hfilled : t.isEmpty = false := by
    rw [Bool.eq_false_iff]
    rintro hempty
    obtain rfl := String.isEmpty_iff.mp hempty
    cases habsolute
  refine ⟨_, by rw [homeFile, home, ht, Option.filter_some_pos (by simp [hfilled]), Option.map_some],
    ?_⟩
  rwa [Path.isAbsolute_join (by decide), Path.isAbsolute_join (by decide),
    Path.isAbsolute_join (by decide)]

/-- **With a home directory that is given from the root, what is in the working directory makes no
difference for the user's defaults exactly if they are ignored, or their file has a path from the
root, or one that no file can have.** -/
theorem load_indifferent_iff (h : Host)
    (hhome : ∃ t, h.environment.lenient "HOME" = some t ∧ (Path.mk t).isAbsolute = true)
    (hplain : ∀ s, h.environment.text? "XDG_CONFIG_HOME" = some s →
      (Path.mk s).isAbsolute = false → .up ∉ Step.named ⟨s⟩) :
    Indifferent h ↔ h.environment.ignoresDefaults = true ∨
      ∀ p, settingsFile h = some p → p.isAbsolute = true ∨ ¬ Usable p := by
  obtain ⟨t, ht, habsolute⟩ := hhome
  obtain ⟨home, hhome, hroot⟩ := homeFile_of_home ht habsolute
  constructor
  · intro hindifferent
    rw [or_iff_not_imp_left, Bool.not_eq_true]
    intro hread p hp
    rw [or_iff_not_imp_left, Bool.not_eq_true]
    intro hrelative husable
    rcases hs : h.environment.text? "XDG_CONFIG_HOME" with _ | s
    · have hnone : namedFile h = none := by rw [namedFile, hs, Option.map_none]
      rw [settingsFile_eq, hnone, Option.none_or, hhome] at hp
      cases hp
      exact Bool.false_ne_true (hrelative.symm.trans hroot)
    · have hnamed : namedFile h =
          some (((Path.mk s).join ⟨"wheelwright"⟩).join ⟨"config.toml"⟩) := by
        rw [namedFile, hs, Option.map_some]
      have hfile := hp
      rw [settingsFile_eq, hnamed, Option.some_or] at hfile
      cases hfile
      rw [Path.isAbsolute_join (by decide), Path.isAbsolute_join (by decide)] at hrelative
      refine not_indifferent hread hhome hroot hs hrelative (hplain s hs hrelative) (fun q hq => ?_)
        hindifferent
      rw [hp] at hq
      cases hq
      exact husable
  · rintro (hignored | hall) a b hdiffer houtHome houtNamed
    · rw [load_ignored hignored, load_ignored hignored]
    · rcases hp : settingsFile h with _ | p
      · rw [load_none hp, load_none hp]
      · rcases hall p hp with hfromRoot | hunusable
        · have hout : Outlying a p := by
            rw [settingsFile_eq, Option.or_eq_some_iff] at hp
            rcases hp with hp | ⟨-, hp⟩
            · exact houtNamed p hp hfromRoot
            · exact houtHome p hp
          exact load_congr hp (hdiffer.find hout)
        · rw [load_unusable hp hunusable, load_unusable hp hunusable]

/-! ### An empty setting -/

/-- A machine with a home directory, where the variable for settings holds something. -/
def machineWith (setting : String) : Host where
  environment := fun name =>
    if name = "HOME" then some "/home/me".toUTF8
    else if name = "XDG_CONFIG_HOME" then some setting.toUTF8
    else none
  accountHome := none
  target := "x86_64-unknown-linux-gnu"
  system := "linux"
  processor := "x86_64"
  takesSlashes := fun _ => none
  behave := fun _ _ fs => (⟨some 0, .empty, .empty⟩, fs)

/-- A project with an empty directory in it. -/
def plainProject : FileSystem := nested "work" ["wheelwright"]

/-- The same project with a file in that directory. -/
def steeringProject : FileSystem :=
  plainProject.put ["work", "wheelwright", "config.toml"]
    (.file ⟨.data "build-dir = 'elsewhere'\n".toUTF8, false⟩)

/-- With a setting from the root nothing is taken from the project, with an empty one something may
be. -/
theorem settings_from_root_only :
    Indifferent (machineWith "/home/me/settings") ∧ ¬ Indifferent (machineWith "") := by
  have hread : Text.Utf8.lenient "/home/me".toUTF8 = "/home/me" := by decide +kernel
  have hhome (setting : String) : ∃ t, (machineWith setting).environment.lenient "HOME" = some t ∧
      (Path.mk t).isAbsolute = true := ⟨"/home/me", congrArg some hread, by decide⟩
  have hnamed (setting : String) (hs : Text.Utf8.strict? setting.toUTF8 = some setting) :
      (machineWith setting).environment.text? "XDG_CONFIG_HOME" = some setting := hs
  constructor
  · refine (load_indifferent_iff _ (hhome _) fun s hs hrelative => ?_).mpr (.inr fun p hp => .inl ?_)
    · rw [hnamed _ (by decide +kernel)] at hs
      cases hs
      cases hrelative
    · have hfile : settingsFile (machineWith "/home/me/settings") =
          some ⟨"/home/me/settings/wheelwright/config.toml"⟩ := by decide +kernel
      rw [hfile] at hp
      cases hp
      decide
  · have hfile : settingsFile (machineWith "") = some ⟨"wheelwright/config.toml"⟩ := by
      decide +kernel
    rw [load_indifferent_iff _ (hhome _) fun s hs hrelative => ?_]
    · rintro (hignored | hall)
      · cases hignored
      · rcases hall _ hfile with hroot | hunusable
        · cases hroot
        · refine hunusable ⟨by decide +kernel, ?_⟩
          have hsteps : Step.ofPath ⟨"wheelwright/config.toml"⟩ =
              [.enter "wheelwright", .enter "config.toml"] := by decide +kernel
          intro name hname
          obtain rfl | rfl : name = "wheelwright" ∨ name = "config.toml" := by
            simpa [hsteps] using hname
          all_goals decide
    · rw [hnamed _ (by decide +kernel)] at hs
      cases hs
      decide

/-- With an empty setting a file in the project says where to build, though the home directory lies
outside. -/
theorem project_steers_build :
    DifferInside plainProject steeringProject ∧
    (∃ home, homeFile (machineWith "") = some home ∧ Outlying plainProject home) ∧
    (∀ p, namedFile (machineWith "") = some p → p.isAbsolute = false) ∧
    load (machineWith "") plainProject = .ok .unset ∧
    load (machineWith "") steeringProject = .ok ⟨some ⟨"elsewhere"⟩, none⟩ := by
  refine ⟨⟨⟨nested_tree, ?_⟩, ⟨nested_tidy (by decide), ?_⟩, rfl, ?_⟩, ?_, ?_, ?_, ?_⟩
  · exact nested_tree.put_in (nested_directory (List.prefix_refl _))
      (.inr (by rw [nested_innermost]; simp))
  · exact (nested_tidy (by decide)).put (by decide) _
  · intro place hout
    refine (lookup_put_of_ne _ _ _ _ fun heq => hout ?_).symm
    rw [heq]
    exact ⟨["wheelwright", "config.toml"], rfl⟩
  · refine ⟨⟨"/home/me/.config/wheelwright/config.toml"⟩, by decide +kernel,
      around_of_absent nested_unlinked ?_ ?_⟩
    · decide +kernel
    · decide +kernel
  · have hfile : namedFile (machineWith "") = some ⟨"wheelwright/config.toml"⟩ := by decide +kernel
    intro p hp
    rw [hfile] at hp
    cases hp
    decide
  · decide +kernel
  · decide +kernel

end UserDefaults
end StableWheel
