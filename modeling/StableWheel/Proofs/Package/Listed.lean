import StableWheel.Proofs.FileSystem.Spelling
import StableWheel.Proofs.Glob.Reached
import StableWheel.Proofs.Package.Copying
import StableWheel.Proofs.Package.Rounds

/-! What staging lists.

A package has files when it is processed: the modules right in its directory, and what its patterns
match (`Chosen`). Staging lists just these, each where it belongs below the build directory
(`Listed`). The order in which directories are listed makes no difference (`stage_lists`,
`modulesIn_of_perm`). -/
namespace StableWheel.PackageLayout
open FileSystem

variable {l : PackageLayout} {root lib : Path} {package : String} {before after fs : FileSystem}

/-! ### What a package has -/

/-- A round of a package has its turn in a file system: the packages that come first are staged, and
so is what comes first of the package itself. -/
def Turn (l : PackageLayout) (root lib : Path) (before : FileSystem) (package : String) (r : Round)
    (fs : FileSystem) : Prop :=
  ∃ earlier later first more cs, l.packages = earlier ++ package :: later ∧
    l.packageRounds root lib package = first ++ r :: more ∧
    Rounds (earlier.flatMap (l.packageRounds root lib) ++ first) before cs fs

/-- A pattern is for a package: it is one of its own, or one for all packages. -/
def Applies (l : PackageLayout) (package pattern : String) : Prop :=
  ∃ key patterns, (key = "" ∨ key = package) ∧ l.data.lookup key = some patterns ∧
    pattern ∈ patterns

/-- A file that a package has when it is processed. -/
inductive Chosen (l : PackageLayout) (root lib : Path) (before : FileSystem) (package : String)
    (file : Path) : Prop where
  /-- A module right in the directory of the package. -/
  | listed {fs : FileSystem} {names : List String} {name : String} :
      Turn l root lib before package
        (moduleRound (root.join (l.sourceDir package)) (destination lib package)) fs →
      fs.readDirectory (root.join (l.sourceDir package)) = .ok names → name ∈ names →
      file = (root.join (l.sourceDir package)).join ⟨name⟩ → fs.isFile file = true →
      file.extension = some "py" → Chosen l root lib before package file
  /-- A file below the directory of the package that a pattern matches. -/
  | matched {fs : FileSystem} {pattern : String} {query : Glob.Query} :
      l.Applies package pattern →
      Turn l root lib before package
        (dataRound (root.join (l.sourceDir package)) (destination lib package) pattern) fs →
      Glob.Query.ofText (patternBelow (root.join (l.sourceDir package)) pattern) = .ok query →
      .ok file ∈ query.run fs → fs.isFile file = true → Chosen l root lib before package file

theorem mem_patterns {pattern : String} : pattern ∈ l.patterns package ↔ l.Applies package pattern := by
  have hlookup : ∀ key, pattern ∈ (l.data.lookup key).getD [] ↔
      ∃ patterns, l.data.lookup key = some patterns ∧ pattern ∈ patterns := by
    intro key
    cases l.data.lookup key <;> simp
  rw [patterns, List.mem_append, hlookup]
  constructor
  · rintro (⟨patterns, hfound, hmem⟩ | hown)
    · exact ⟨"", patterns, .inl rfl, hfound, hmem⟩
    · split at hown
      · cases hown
      · obtain ⟨patterns, hfound, hmem⟩ := (hlookup package).mp hown
        exact ⟨package, patterns, .inr rfl, hfound, hmem⟩
  · rintro ⟨key, patterns, rfl | rfl, hfound, hmem⟩
    · exact .inl ⟨patterns, hfound, hmem⟩
    · by_cases hempty : key = ""
      · exact .inl ⟨patterns, hempty ▸ hfound, hmem⟩
      · rw [if_neg (by simpa using hempty)]
        exact .inr ((hlookup key).mpr ⟨patterns, hfound, hmem⟩)

/-! ### What rounds select -/

theorem mem_of_mapM {α ε ε' : Type} {f : ε → ε'} {results : List (Except ε α)} {found : List α}
    (h : (results.mapM fun r => r.mapError f) = .ok found) (x : α) :
    x ∈ found ↔ .ok x ∈ results := by
  induction results generalizing found with
  | nil =>
    cases h
    simp
  | cons r rest ih =>
    rw [List.mapM_cons] at h
    obtain ⟨first, hfirst, h⟩ := bind_ok h
    obtain ⟨more, hmore, h⟩ := bind_ok h
    cases h
    cases r with
    | error e => cases hfirst
    | ok y =>
      cases hfirst
      rw [List.mem_cons, List.mem_cons, ih hmore, Except.ok.injEq]

theorem mem_matchesBelow {directory file : Path} {pattern : String} {files : List Path}
    (h : matchesBelow fs directory pattern = .ok files) : file ∈ files ↔ ∃ query,
      Glob.Query.ofText (patternBelow directory pattern) = .ok query ∧ .ok file ∈ query.run fs ∧
      fs.isFile file = true := by
  unfold matchesBelow at h
  split at h
  · cases h
  · next query hquery =>
    obtain ⟨found, hfound, h⟩ := bind_ok h
    cases h
    rw [List.mem_filter, mem_of_mapM hfound]
    constructor
    · rintro ⟨hrun, hfile⟩
      exact ⟨query, hquery, hrun, hfile⟩
    · rintro ⟨query', hquery', hrun, hfile⟩
      rw [hquery] at hquery'
      cases hquery'
      exact ⟨hrun, hfile⟩

theorem mem_packageRounds {r : Round} (h : r ∈ l.packageRounds root lib package) :
    r = moduleRound (root.join (l.sourceDir package)) (destination lib package) ∨
    ∃ pattern, l.Applies package pattern ∧
      r = dataRound (root.join (l.sourceDir package)) (destination lib package) pattern := by
  rw [packageRounds, List.mem_cons, List.mem_map] at h
  refine h.imp_right ?_
  rintro ⟨pattern, hpattern, rfl⟩
  exact ⟨pattern, mem_patterns.mp hpattern, rfl⟩

theorem Turn.mem {r : Round} (h : Turn l root lib before package r fs) :
    package ∈ l.packages ∧ r ∈ l.packageRounds root lib package := by
  obtain ⟨earlier, later, first, more, -, hpackages, hrounds, -⟩ := h
  rw [hpackages, hrounds]
  exact ⟨List.mem_append_right _ (List.mem_cons_self ..),
    List.mem_append_right _ (List.mem_cons_self ..)⟩

/-- Where files of a package are from, and where they go. -/
theorem Turn.ends {r : Round} (h : Turn l root lib before package r fs) :
    r.directory = root.join (l.sourceDir package) ∧ r.dest = destination lib package := by
  obtain rfl | ⟨pattern, -, rfl⟩ := mem_packageRounds h.mem.2 <;> exact ⟨rfl, rfl⟩

/-- A package has what its rounds select. -/
theorem Turn.chosen {r : Round} {files : List Path} {file : Path}
    (h : Turn l root lib before package r fs) (hselect : r.select fs = .ok files)
    (hfile : file ∈ files) : Chosen l root lib before package file := by
  obtain rfl | ⟨pattern, hpattern, rfl⟩ := mem_packageRounds h.mem.2
  · rw [select_moduleRound] at hselect
    obtain ⟨names, name, hread, hname, heq, hfile, hextension⟩ := (mem_modulesIn hselect).mp hfile
    exact .listed h hread hname heq hfile hextension
  · rw [select_dataRound] at hselect
    obtain ⟨query, hquery, hrun, hfile⟩ := (mem_matchesBelow hselect).mp hfile
    exact .matched hpattern h hquery hrun hfile

theorem Chosen.selected {file : Path} (h : Chosen l root lib before package file) :
    ∃ r fs, Turn l root lib before package r fs ∧
      ∀ files, r.select fs = .ok files → file ∈ files := by
  cases h with
  | listed hturn hread hname heq hfile hextension =>
    refine ⟨_, _, hturn, fun files hselect => ?_⟩
    rw [select_moduleRound] at hselect
    exact (mem_modulesIn hselect).mpr ⟨_, _, hread, hname, heq, hfile, hextension⟩
  | matched _ hturn hquery hrun hfile =>
    refine ⟨_, _, hturn, fun files hselect => ?_⟩
    rw [select_dataRound] at hselect
    exact (mem_matchesBelow hselect).mpr ⟨_, hquery, hrun, hfile⟩

/-! ### The rounds that were made -/

theorem Rounds.exists_round {rs : List Round} {cs : List Copy} {c : Copy}
    (h : Rounds rs before cs after) (hc : c ∈ cs) :
    ∃ first r more cs' fs files, rs = first ++ r :: more ∧ Rounds first before cs' fs ∧
      r.select fs = .ok files ∧ ∃ file ∈ files, (c.source, c.target) = r.pair file := by
  induction h with
  | nil => cases hc
  | @cons r rest before between after files cs cs' hselect hpairs hcopies _ ih =>
    rcases List.mem_append.mp hc with hc | hc
    · have hpair := List.mem_map_of_mem (f := fun c : Copy => (c.source, c.target)) hc
      rw [hpairs] at hpair
      obtain ⟨file, hfile, heq⟩ := List.mem_map.mp hpair
      exact ⟨[], r, rest, [], before, files, rfl, .nil, hselect, file, hfile, heq.symm⟩
    · obtain ⟨first, r', more, cs'', fs, files', rfl, hfirst, hselect', hfile⟩ := ih hc
      exact ⟨r :: first, r', more, _, fs, files', rfl, .cons hselect hpairs hcopies hfirst,
        hselect', hfile⟩

theorem Rounds.exists_package {packages : List String} {cs : List Copy} {c : Copy}
    (h : Rounds (packages.flatMap (l.packageRounds root lib)) before cs after) (hc : c ∈ cs) :
    ∃ earlier package later cs' cs'' fs fs', packages = earlier ++ package :: later ∧
      Rounds (earlier.flatMap (l.packageRounds root lib)) before cs' fs ∧
      Rounds (l.packageRounds root lib package) fs cs'' fs' ∧ c ∈ cs'' := by
  induction packages generalizing before cs with
  | nil =>
    cases h
    cases hc
  | cons package rest ih =>
    rw [List.flatMap_cons] at h
    obtain ⟨own, others, between, rfl, hown, hothers⟩ := h.split
    rcases List.mem_append.mp hc with hc | hc
    · exact ⟨[], package, rest, [], own, before, between, rfl, .nil, hown, hc⟩
    · obtain ⟨earlier, package', later, cs', cs'', fs, fs', rfl, hearlier, hpackage, hc⟩ :=
        ih hothers hc
      refine ⟨package :: earlier, package', later, own ++ cs', cs'', fs, fs', rfl, ?_, hpackage, hc⟩
      rw [List.flatMap_cons]
      exact hown.append hearlier

/-- Every copy was made when a round of a package had its turn. -/
theorem Rounds.exists_turn {cs : List Copy} {c : Copy}
    (h : Rounds (l.rounds root lib) before cs after) (hc : c ∈ cs) :
    ∃ package r fs files, Turn l root lib before package r fs ∧ r.select fs = .ok files ∧
      ∃ file ∈ files, (c.source, c.target) = r.pair file := by
  obtain ⟨earlier, package, later, cs', cs'', fs, fs', hpackages, hearlier, hpackage, hc⟩ :=
    h.exists_package hc
  obtain ⟨first, r, more, cs₁, fs₁, files, hrounds, hfirst, hselect, hfile⟩ :=
    hpackage.exists_round hc
  exact ⟨package, r, fs₁, files, ⟨earlier, later, first, more, _, hpackages, hrounds,
    hearlier.append hfirst⟩, hselect, hfile⟩

/-- Whatever has its turn selects files, and each of them is copied. -/
theorem Turn.made {r : Round} {cs : List Copy} (hturn : Turn l root lib before package r fs)
    (h : Rounds (l.rounds root lib) before cs after) :
    ∃ files, r.select fs = .ok files ∧
      ∀ file ∈ files, ∃ c ∈ cs, (c.source, c.target) = r.pair file := by
  obtain ⟨earlier, later, first, more, cs', hpackages, hrounds, hfirst⟩ := hturn
  have hall : l.rounds root lib = (earlier.flatMap (l.packageRounds root lib) ++ first) ++
      r :: (more ++ later.flatMap (l.packageRounds root lib)) := by
    rw [rounds, hpackages, List.flatMap_append, List.flatMap_cons, hrounds]
    simp
  rw [hall] at h
  obtain ⟨own, others, between, rfl, hown, hothers⟩ := h.split
  obtain ⟨rfl, rfl⟩ := hfirst.unique hown
  cases hothers with
  | @cons _ _ _ _ _ files cs cs' hselect hpairs _ _ =>
    refine ⟨files, hselect, fun file hfile => ?_⟩
    have hpair := List.mem_map_of_mem (f := r.pair) hfile
    rw [← hpairs] at hpair
    obtain ⟨c, hc, heq⟩ := List.mem_map.mp hpair
    exact ⟨c, List.mem_append_right _ (List.mem_append_left _ hc), heq⟩

/-! ### Where files belong -/

/-- A path is below a directory where a file is below another directory. -/
def Placed (directory file dest target : Path) : Prop :=
  ∃ steps, file.components = directory.components ++ steps ∧
    target.components = dest.components ++ steps

theorem targetOf_placed {directory file : Path} (dest : Path)
    (hdirectory : directory.isAbsolute = true) (h : directory.components <+: file.components) :
    Placed directory file dest (targetOf directory dest file) := by
  obtain ⟨rel, hrel⟩ := Option.isSome_iff_exists.mp (Path.relativeTo_isSome.mpr h)
  obtain ⟨hleading, hcomponents⟩ := Path.relativeTo_components hdirectory hrel
  rw [targetOf, hrel]
  exact ⟨_, hcomponents, Path.components_join_step dest hleading⟩

theorem Placed.same {directory file dest target other : Path} (h : Placed directory file dest target)
    (h' : Placed directory file dest other) : target.same other = true := by
  obtain ⟨steps, hfile, htarget⟩ := h
  obtain ⟨steps', hfile', hother⟩ := h'
  rw [hfile] at hfile'
  rw [Path.same_iff, htarget, hother, List.append_cancel_left hfile']

theorem Turn.tidy {r : Round} (h : Turn l root lib before package r fs) (htidy : before.Tidy) :
    fs.Tidy := by
  obtain ⟨_, _, _, _, _, _, _, hrounds⟩ := h
  exact hrounds.copies.tidy htidy

/-- The files that a package has are below its directory. -/
theorem Chosen.below {file : Path} (h : Chosen l root lib before package file)
    (hroot : root.isAbsolute = true) (htidy : before.Tidy) :
    (root.join (l.sourceDir package)).components <+: file.components := by
  have habsolute := Path.isAbsolute_join_left (q := l.sourceDir package) hroot
  cases h with
  | listed hturn hread hname heq _ _ =>
    have hnameable := (hturn.tidy htidy).readDirectory hread _ hname
    rw [heq, (Glob.components_join_absolute habsolute hnameable.2.2.2).2]
    exact List.prefix_append _ _
  | matched _ hturn hquery hrun _ =>
    exact Glob.found_below (hturn.tidy htidy) habsolute hquery hrun

/-! ### The answer -/

/-- What staging lists: in strictly rising order the files that the packages have, each in its place
below the build directory. These are files in the end, and no other file is new or different. -/
structure Listed (l : PackageLayout) (root lib : Path) (before after : FileSystem)
    (files : List Path) : Prop where
  rising : files.Pairwise Path.Before
  chosen : ∀ target, (∃ p ∈ files, p.same target = true) ↔
    ∃ package ∈ l.packages, ∃ file, Chosen l root lib before package file ∧
      Placed (root.join (l.sourceDir package)) file (destination lib package) target
  there : ∀ p ∈ files, after.isFile p = true
  only : ∀ place, Changed before after place →
    ∃ p ∈ files, ∃ f, after.find p .followed = .ok (place, .file f)

theorem Rounds.listed {cs : List Copy} (h : Rounds (l.rounds root lib) before cs after)
    (hroot : root.isAbsolute = true) (ht : before.IsTree) (htidy : before.Tidy) :
    Listed l root lib before after (Path.sorted (cs.map Copy.target)) where
  rising := Path.sorted_rising _
  chosen target := by
    -- a selected file is copied to where it belongs
    have hplaced : ∀ {package r fs file} {c : Copy}, Turn l root lib before package r fs →
        Chosen l root lib before package file → (c.source, c.target) = r.pair file →
        Placed (root.join (l.sourceDir package)) file (destination lib package) c.target := by
      intro package r fs file c hturn hchosen hpair
      obtain ⟨hdirectory, hdest⟩ := hturn.ends
      rw [(Prod.mk.inj hpair).2, hdirectory, hdest]
      exact targetOf_placed _ (Path.isAbsolute_join_left hroot) (hchosen.below hroot htidy)
    constructor
    · rintro ⟨p, hp, hsame⟩
      obtain ⟨c, hc, rfl⟩ := List.mem_map.mp (Path.mem_of_mem_sorted hp)
      obtain ⟨package, r, fs, files, hturn, hselect, file, hfile, hpair⟩ := h.exists_turn hc
      have hchosen := hturn.chosen hselect hfile
      obtain ⟨steps, hsource, htarget⟩ := hplaced hturn hchosen hpair
      exact ⟨package, hturn.mem.1, file, hchosen, steps, hsource,
        (Path.same_iff.mp hsame).symm.trans htarget⟩
    · rintro ⟨package, -, file, hchosen, hbelongs⟩
      obtain ⟨r, fs, hturn, hselected⟩ := hchosen.selected
      obtain ⟨files, hselect, hmade⟩ := hturn.made h
      obtain ⟨c, hc, hpair⟩ := hmade file (hselected files hselect)
      obtain ⟨p, hp, hsame⟩ := Path.exists_mem_sorted (List.mem_map_of_mem (f := Copy.target) hc)
      have htarget := Path.same_iff.mp ((hplaced hturn hchosen hpair).same hbelongs)
      exact ⟨p, hp, Path.same_iff.mpr ((Path.same_iff.mp hsame).trans htarget)⟩
  there p hp := by
    obtain ⟨c, hc, rfl⟩ := List.mem_map.mp (Path.mem_of_mem_sorted hp)
    obtain ⟨f, hfound⟩ := h.copies.find_target ht hc
    rw [isFile, status, hfound]
    rfl
  only place hchanged := by
    obtain ⟨-, -, hplaces⟩ := h.copies.steady (SameLinks.refl before) ht
    obtain ⟨c, hc, rfl⟩ := hplaces place hchanged
    obtain ⟨p, hp, hsame⟩ := Path.exists_mem_sorted (List.mem_map_of_mem (f := Copy.target) hc)
    obtain ⟨c', hc', rfl⟩ := List.mem_map.mp (Path.mem_of_mem_sorted hp)
    obtain ⟨f, hfound⟩ := h.copies.find_target ht hc'
    -- two spellings of a target are one place
    have hhead := heads_of_resolve (h.copies.resolve_target ht hc)
    have hplace := (heads_of_resolve (find_iff.mp hfound).1).unique (hhead.of_same hsame)
    exact ⟨c'.target, hp, f, hplace ▸ hfound⟩

/-! ### The order of directories -/

/-- The modules in a directory, if its names are listed in some order. -/
def modulesAmong (fs : FileSystem) (directory : Path) (listed : List String) : List Path :=
  ((listed.map fun name => directory.join ⟨name⟩).filter (isModule fs)).mergeSort Path.le

/-- The modules in a directory are the same in whatever order its names are listed. -/
theorem modulesIn_of_perm {directory : Path} {names listed : List String} (htidy : fs.Tidy)
    (hdirectory : directory.isAbsolute = true) (h : fs.readDirectory directory = .ok names)
    (hperm : listed.Perm names) : modulesIn fs directory = .ok (modulesAmong fs directory listed) := by
  have hnameable := htidy.readDirectory h
  have hmodules : modulesIn fs directory = .ok (modulesAmong fs directory names) := by
    rw [modulesIn, h, modulesAmong]
  rw [hmodules, modulesAmong, modulesAmong]
  refine congrArg Except.ok (List.Perm.eq_of_pairwise ?_ (Path.mergeSort_rising _)
    (Path.mergeSort_rising _) ?_)
  · intro p q hp hq hle hge
    rw [List.mem_mergeSort, List.mem_filter, List.mem_map] at hp hq
    obtain ⟨⟨name, hname, rfl⟩, -⟩ := hp
    obtain ⟨⟨name', hname', rfl⟩, -⟩ := hq
    -- different names would be different components
    have hsame := Path.same_iff.mp (Path.same_of_le hle hge)
    have hn := hnameable name hname
    have hn' := hnameable name' (hperm.mem_iff.mp hname')
    rw [(Glob.components_join_absolute hdirectory hn.2.2.2).2, Path.stepsIn_name hn,
      (Glob.components_join_absolute hdirectory hn'.2.2.2).2, Path.stepsIn_name hn'] at hsame
    obtain rfl : name = name' := by simpa using List.append_cancel_left hsame
    rfl
  · exact ((List.mergeSort_perm _ _).trans ((hperm.symm.map _).filter _)).trans
      (List.mergeSort_perm _ _).symm

/-- **What staging lists.** When packages are staged for a project with an absolute path, the answer
lists what the packages have, and nothing else (`Listed`). It does not depend on the order in which
directories are listed: with the same files in another order the answer is the same and the same
files are there in the end, and so it is if the names in a directory come in another order. -/
theorem stage_lists (l : PackageLayout) (root lib : Path) (files : List Path) (s s' : Session)
    (hroot : root.isAbsolute = true) (ht : s.files.IsTree) (htidy : s.files.Tidy)
    (h : (l.stage root lib).run s = (.ok files, s')) :
    Listed l root lib s.files s'.files files ∧
      (∀ o : Session, SameFiles s.files o.files → o.files.Tidy →
        ∃ o', (l.stage root lib).run o = (.ok files, o') ∧ SameFiles s'.files o'.files) ∧
      ∀ package r fs names listed, Turn l root lib s.files package r fs →
        fs.readDirectory (root.join (l.sourceDir package)) = .ok names → listed.Perm names →
        modulesIn fs (root.join (l.sourceDir package)) =
          .ok (modulesAmong fs (root.join (l.sourceDir package)) listed) := by
  obtain ⟨cs, hrounds, rfl⟩ := stage_ok h
  refine ⟨hrounds.listed hroot ht htidy, fun o hsame htidy' => stage_of_sameFiles h hsame htidy htidy',
    fun package r fs names listed hturn hread hperm => ?_⟩
  exact modulesIn_of_perm (hturn.tidy htidy) (Path.isAbsolute_join_left hroot) hread hperm

/-- A package with two modules, and a data file in a directory of its own. -/
def sharedFiles : FileSystem where
  entries :=
    [(["p"], .directory), (["p", "pkg"], .directory),
      (["p", "pkg", "b.py"], .file ⟨.data ⟨#[49]⟩, false⟩),
      (["p", "pkg", "c.py"], .file ⟨.data ⟨#[50]⟩, false⟩), (["p", "pkg", "d"], .directory),
      (["p", "pkg", "d", "a.txt"], .file ⟨.data ⟨#[120]⟩, false⟩)]
  workingDirectory := ["p"]

theorem sharedFiles_tidy : sharedFiles.Tidy := ⟨by decide, by decide, by decide⟩

/-- The same files, listed from the end. -/
def turnedFiles : FileSystem := { sharedFiles with entries := sharedFiles.entries.reverse }

/-- The pattern of the data file is one for all packages. -/
def sharedLayout : PackageLayout := ⟨["pkg"], [], [("", ["d/a.txt"])]⟩

def sharedStaging : Except StageError (List Path) × Session :=
  (sharedLayout.stage ⟨"/p"⟩ ⟨"/p/build/lib"⟩).run (.ofFiles sharedFiles)

/-- What is staged of the package. -/
def sharedCopies : List Path :=
  [⟨"/p/build/lib/pkg/b.py"⟩, ⟨"/p/build/lib/pkg/c.py"⟩, ⟨"/p/build/lib/pkg/d/a.txt"⟩]

theorem sharedFiles_names :
    sharedFiles.readDirectory ⟨"/p/pkg"⟩ = .ok ["b.py", "c.py", "d"] := by
  have hfound : sharedFiles.find ⟨"/p/pkg"⟩ .followed = .ok (["p", "pkg"], .directory) := by
    decide +kernel
  rw [readDirectory, hfound]
  exact congrArg Except.ok (names_of_rising (by decide) (by decide))

theorem sharedLayout_directory :
    (Path.mk "/p").join (sharedLayout.sourceDir "pkg") = ⟨"/p/pkg"⟩ := by
  decide +kernel

theorem sharedFiles_modules :
    modulesIn sharedFiles ⟨"/p/pkg"⟩ = .ok [⟨"/p/pkg/b.py"⟩, ⟨"/p/pkg/c.py"⟩] := by
  have hfilter : ((["b.py", "c.py", "d"].map fun name => (Path.mk "/p/pkg").join ⟨name⟩).filter
      (isModule sharedFiles)) = [⟨"/p/pkg/b.py"⟩, ⟨"/p/pkg/c.py"⟩] := by decide +kernel
  rw [modulesIn, sharedFiles_names]
  dsimp only
  rw [hfilter, List.mergeSort_of_pairwise (by decide +kernel)]

theorem sharedStaging_ok : sharedStaging.1 = .ok sharedCopies := by
  have hmodules : modulesIn (Session.ofFiles sharedFiles).files
      ((Path.mk "/p").join (sharedLayout.sourceDir "pkg")) =
        .ok [⟨"/p/pkg/b.py"⟩, ⟨"/p/pkg/c.py"⟩] := by
    rw [sharedLayout_directory]
    exact sharedFiles_modules
  have hcopied : ((sharedLayout.stagePackage ⟨"/p"⟩ ⟨"/p/build/lib"⟩ "pkg").run
      (.ofFiles sharedFiles)).1 = .ok sharedCopies := by
    rw [stagePackage_of_modules hmodules]
    decide +kernel
  obtain ⟨s', hrun⟩ : ∃ s', (sharedLayout.stagePackage ⟨"/p"⟩ ⟨"/p/build/lib"⟩ "pkg").run
      (.ofFiles sharedFiles) = (.ok sharedCopies, s') := ⟨_, Prod.ext hcopied rfl⟩
  rw [sharedStaging, stage, Task.run_bind]
  rw [show sharedLayout.packages = ["pkg"] from rfl, stageEach, Task.run_bind, hrun]
  show Except.ok (Path.sorted (sharedCopies ++ [])) = _
  rw [List.append_nil, Path.sorted_of_rising (by decide +kernel)]

/-- The modules of the package have the first turn. -/
theorem sharedLayout_turn : Turn sharedLayout ⟨"/p"⟩ ⟨"/p/build/lib"⟩ sharedFiles "pkg"
    (moduleRound ((Path.mk "/p").join (sharedLayout.sourceDir "pkg"))
      (destination ⟨"/p/build/lib"⟩ "pkg")) sharedFiles :=
  ⟨[], [], [], _, [], rfl, rfl, .nil⟩

/-- The two modules and the data file are listed, the data file because the package has it. The
answer is the same if all files are listed from the end, and so are the modules if the names in the
directory of the package are. -/
theorem sharedStaging_lists :
    Listed sharedLayout ⟨"/p"⟩ ⟨"/p/build/lib"⟩ sharedFiles sharedStaging.2.files sharedCopies ∧
      (∃ file, Chosen sharedLayout ⟨"/p"⟩ ⟨"/p/build/lib"⟩ sharedFiles "pkg" file ∧
        Placed ⟨"/p/pkg"⟩ file ⟨"/p/build/lib/pkg"⟩ ⟨"/p/build/lib/pkg/d/a.txt"⟩) ∧
      (∃ o', (sharedLayout.stage ⟨"/p"⟩ ⟨"/p/build/lib"⟩).run (.ofFiles turnedFiles) =
          (.ok sharedCopies, o') ∧ SameFiles sharedStaging.2.files o'.files) ∧
      modulesIn sharedFiles ⟨"/p/pkg"⟩ =
        .ok (modulesAmong sharedFiles ⟨"/p/pkg"⟩ ["d", "c.py", "b.py"]) := by
  have hturned : sharedFiles.entries.Perm turnedFiles.entries := (List.reverse_perm _).symm
  obtain ⟨hlisted, hany, horder⟩ := stage_lists sharedLayout ⟨"/p"⟩ ⟨"/p/build/lib"⟩ sharedCopies
    (.ofFiles sharedFiles) sharedStaging.2 (by decide)
    (isTree_of_entries (by decide) (by decide)) sharedFiles_tidy
    (by show sharedStaging = _; rw [← sharedStaging_ok])
  refine ⟨hlisted, ?_, hany (.ofFiles turnedFiles) (.of_perm sharedFiles_tidy rfl hturned)
    (sharedFiles_tidy.of_perm rfl hturned), ?_⟩
  · obtain ⟨package, hpackage, file, hchosen, hplaced⟩ :=
      (hlisted.chosen ⟨"/p/build/lib/pkg/d/a.txt"⟩).mp
        ⟨⟨"/p/build/lib/pkg/d/a.txt"⟩, by decide, by decide⟩
    obtain rfl := List.mem_singleton.mp hpackage
    rw [sharedLayout_directory] at hplaced
    exact ⟨file, hchosen, hplaced⟩
  · have hmodules := horder "pkg" _ sharedFiles ["b.py", "c.py", "d"] ["d", "c.py", "b.py"]
      sharedLayout_turn (by rw [sharedLayout_directory, sharedFiles_names]) (by decide)
    rwa [sharedLayout_directory] at hmodules

end StableWheel.PackageLayout
