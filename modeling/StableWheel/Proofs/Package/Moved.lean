import StableWheel.Proofs.Glob.Moved

/-! Where a package lies.

The directory of a package is put in front of its patterns, special characters and all. This makes no
difference for what the patterns match: below two directories where the same is to be seen, a pattern
is refused in both cases or in none, and otherwise matches files with the same names behind the
directories (`matchesBelow_moved`). -/
namespace StableWheel.PackageLayout
open FileSystem Glob

/-- No component of a pattern can stand for one dot or for two. A search tries these names only on
components that start with a dot. -/
def Dotless (pattern : String) : Prop :=
  ∀ text ∈ componentTexts pattern.toList, ∀ component, compile text = .ok component →
    component.head? = some (.char '.') →
    fits component ['.'] = false ∧ fits component ['.', '.'] = false

instance : DecidablePred Dotless := fun pattern =>
  decidable_of_iff (∀ text ∈ componentTexts pattern.toList, ∀ component ∈ (compile text).toOption,
    component.head? = some (.char '.') →
      fits component ['.'] = false ∧ fits component ['.', '.'] = false)
    (by
      refine forall₂_congr fun text _ => ?_
      cases compile text <;> simp [Except.toOption])

variable {a b fs : FileSystem} {d e p s t : Path} {pattern : String}

/-! ### What is asked for -/

theorem Dotless.searched (h : Dotless pattern) {rest : List (List Token)}
    (hrest : (componentTexts pattern.toList).mapM compile = .ok rest) :
    ∀ component ∈ rest, Searched component := by
  intro component hcomponent
  obtain ⟨text, htext, hcompile⟩ := exists_of_mapM_ok hrest hcomponent
  exact ⟨whole_of_mapM (fun _ => of_mem_componentTexts) hrest component hcomponent,
    h text htext component hcompile⟩

/-! ### What is answered -/

/-- A pattern is refused if it cannot be read, and never for what is found. -/
theorem matchesBelow_refused_iff {err : PatternError} :
    matchesBelow fs d pattern = .error (.badPattern pattern err) ↔
      Query.ofText (patternBelow d pattern) = .error err := by
  unfold matchesBelow
  rcases Query.ofText (patternBelow d pattern) with err' | q
  · simp [throw, throwThe, MonadExceptOf.throw]
  · refine iff_of_false (fun hrefused => ?_) nofun
    rcases bind_error hrefused with hmapped | ⟨found, -, hrefused⟩
    · obtain ⟨result, -, hresult⟩ := exists_of_mapM_error hmapped
      cases result <;> cases hresult
    · cases hrefused

theorem mapM_found {α ε ε' : Type} (f : ε → ε') (xs : List α) :
    (xs.map (Except.ok : α → Except ε α)).mapM (fun r => r.mapError f) = .ok xs := by
  induction xs with
  | nil => rfl
  | cons x rest ih =>
    rw [List.map_cons, List.mapM_cons, ih]
    rfl

theorem matchesBelow_found {q : Query} (h : Query.ofText (patternBelow d pattern) = .ok q)
    {found : List Path} (hrun : q.run fs = found.map .ok) :
    matchesBelow fs d pattern = .ok (found.filter fs.isFile) := by
  rw [matchesBelow, h]
  dsimp only
  rw [hrun, mapM_found]
  rfl

/-- Results that are fellows are lists of paths with the same parts. -/
theorem exists_parts {xs ys : List (Except (Path × FileError) Path)}
    (h : List.Forall₂ (Fellows s t) xs ys) :
    ∃ found : List (List String), (∀ parts ∈ found, ∀ part ∈ parts, PathPart part) ∧
      xs = (found.map s.extend).map .ok ∧ ys = (found.map t.extend).map .ok := by
  induction h with
  | nil => exact ⟨[], by simp, rfl, rfl⟩
  | cons hxy _ ih =>
    obtain ⟨parts, hparts, rfl, rfl⟩ := hxy
    obtain ⟨found, hfound, rfl, rfl⟩ := ih
    exact ⟨parts :: found, List.forall_mem_cons.mpr ⟨hparts, hfound⟩, rfl, rfl⟩

/-! ### Behind the directory -/

/-- What parts add to a path: a name for each that is not empty. -/
theorem components_parts (hp : p.isAbsolute = true) {parts : List String}
    (hparts : ∀ part ∈ parts, PathPart part) :
    (p.extend parts).components = p.components ++ (parts.filter (· ≠ "")).map .name := by
  rw [Path.components_extend hp fun part hpart => (hparts part hpart).noSeparator]
  congr 1
  induction parts with
  | nil => rfl
  | cons part rest ih =>
    rw [List.flatMap_cons, ih fun other hother => hparts other (List.mem_cons_of_mem _ hother)]
    rcases hparts part (List.mem_cons_self ..) with rfl | hname
    · simp [Path.stepsIn_nil]
    · simp [Path.stepsIn_name hname, hname.1]

theorem components_start (h : d.isAbsolute = true) : (startOf d).components = d.components := by
  have hpieces : ∀ part ∈ (piecesOf d).map String.ofList, '/' ∉ part.toList := by
    intro part hpart
    obtain ⟨piece, hpiece, rfl⟩ := List.mem_map.mp hpart
    rw [String.toList_ofList]
    exact mem_piecesOf hpiece
  have hsteps : ∀ piece ∈ piecesOf d, Path.stepsIn (String.ofList piece).toList =
      (Path.stepOf piece).toList := by
    intro piece hpiece
    rw [String.toList_ofList, Path.stepsIn_piece (mem_piecesOf hpiece)]
  have hroot : (Path.mk "/").components = [.root] := by decide
  rw [startOf, pathAlong, Path.components_extend (by decide) hpieces, List.flatMap_map,
    List.flatMap_congr hsteps, components_piecesOf h, hroot, List.filterMap_eq_flatMap_toList]
  rfl

/-- A path to the directory itself leads to no file, even with a separator behind it. -/
theorem filled_of_isFile (ht : fs.IsTree) (hread : Readable fs d) (hd : fs.isDirectory d = true)
    (h : d.isAbsolute = true) {parts : List String} (hparts : ∀ part ∈ parts, PathPart part)
    (hfile : fs.isFile ((startOf d).extend parts) = true) : parts.filter (· ≠ "") ≠ [] := by
  intro hempty
  have hstart := shorter_start h
  have hnone : Named [] := fun _ hname => absurd hname List.not_mem_nil
  have hself : (startOf d).extend [] = startOf d := rfl
  obtain ⟨place, hfound⟩ := isDirectory_iff.mp hd
  have hdirectory : sight fs (startOf d) = ⟨false, true, some (fs.names place)⟩ :=
    (sight_shorter ht hread hd hstart hnone).trans (sight_directory hfound)
  have hseparator : sight fs ((startOf d).join ⟨""⟩) = ⟨false, true, some (fs.names place)⟩ :=
    (sight_shorter_separator ht hread hd hstart hnone).trans (by
      rw [hself, hdirectory]
      rfl)
  have hnofile : ∀ {p : Path}, sight fs p = ⟨false, true, some (fs.names place)⟩ →
      fs.isFile p = false := fun hsight => congrArg Sight.file hsight
  rw [Path.extend_idle hstart.absolute.1 fun part hpart => (hparts part hpart).noSeparator,
    hempty, hself] at hfile
  by_cases hlast : parts.getLast? = some ""
  · rw [if_pos hlast, hnofile hseparator] at hfile
    cases hfile
  · rw [if_neg hlast, hnofile hdirectory] at hfile
    cases hfile

/-- **The location of a package has no part in which files its patterns match.** Below two
directories where the same is to be seen, a pattern without dots is refused in both cases or in none;
otherwise files with the same names behind the two directories are matched, in the same order, and
all of them are below the directories. -/
theorem matchesBelow_moved (hta : a.IsTree) (htb : b.IsTree) (htidy : a.Tidy) (htidy' : b.Tidy)
    (hd : d.isAbsolute = true) (he : e.isAbsolute = true) (hsame : SameBelow a b d e)
    (hread : Readable a d) (hread' : Readable b e) (hdots : Dotless pattern) :
    (∃ err err', matchesBelow a d pattern = .error (.badPattern pattern err) ∧
      matchesBelow b e pattern = .error (.badPattern pattern err')) ∨
    ∃ files files', ∃ found : List Location,
      matchesBelow a d pattern = .ok files ∧ matchesBelow b e pattern = .ok files' ∧
      (∀ names ∈ found, names ≠ [] ∧ Named names) ∧
      files.map Path.components = found.map (fun names => d.components ++ names.map .name) ∧
      files'.map Path.components = found.map (fun names => e.components ++ names.map .name) := by
  rcases hquery : Query.ofText (patternBelow d pattern) with err | q
  · rcases hquery' : Query.ofText (patternBelow e pattern) with err' | q'
    · exact .inl ⟨err, err', matchesBelow_refused_iff.mpr hquery,
        matchesBelow_refused_iff.mpr hquery'⟩
    · obtain ⟨htokens, rest, hrest, -⟩ := (ofText_patternBelow_iff he).mp hquery'
      rw [(ofText_patternBelow_iff hd).mpr ⟨htokens, rest, hrest, rfl⟩] at hquery
      cases hquery
  · obtain ⟨htokens, rest, hrest, rfl⟩ := (ofText_patternBelow_iff hd).mp hquery
    have hquery' := (ofText_patternBelow_iff he).mpr ⟨htokens, rest, hrest, rfl⟩
    have halike := alike_start hsame hta htb htidy hread hread' hd he
    obtain ⟨found, hparts, hrun, hrun'⟩ := exists_parts (run_fellows halike htidy'
      hsame.directories.1 hsame.directories.2 hd he (hdots.searched hrest)
      (('/' :: pattern.toList).getLast? == some '/'))
    have hsamefile : ∀ parts ∈ found, (a.isFile ((startOf d).extend parts)) =
        b.isFile ((startOf e).extend parts) :=
      fun parts hmem => congrArg Sight.file (halike.sight parts (hparts parts hmem))
    let chosen := found.filter fun parts => a.isFile ((startOf d).extend parts)
    have hchosen : ∀ parts ∈ chosen, (∀ part ∈ parts, PathPart part) ∧
        a.isFile ((startOf d).extend parts) = true := fun parts hmem =>
      ⟨hparts parts (List.mem_filter.mp hmem).1, (List.mem_filter.mp hmem).2⟩
    have hfiles : (found.map (startOf d).extend).filter a.isFile = chosen.map (startOf d).extend :=
      List.filter_map ..
    have hfiles' : (found.map (startOf e).extend).filter b.isFile =
        chosen.map (startOf e).extend := by
      rw [List.filter_map]
      exact congrArg _ (List.filter_congr fun parts hmem => (hsamefile parts hmem).symm)
    refine .inr ⟨_, _, chosen.map fun parts => parts.filter (· ≠ ""),
      matchesBelow_found hquery hrun, matchesBelow_found hquery' hrun', ?_, ?_, ?_⟩
    · intro names hnames
      obtain ⟨parts, hmem, rfl⟩ := List.mem_map.mp hnames
      obtain ⟨hall, hfile⟩ := hchosen parts hmem
      exact ⟨filled_of_isFile hta hread hsame.directories.1 hd hall hfile, named_filter hall⟩
    · rw [hfiles, List.map_map, List.map_map]
      refine List.map_congr_left fun parts hmem => ?_
      rw [Function.comp_apply, Function.comp_apply,
        components_parts halike.absolute.1 (hchosen parts hmem).1, components_start hd]
    · rw [hfiles', List.map_map, List.map_map]
      refine List.map_congr_left fun parts hmem => ?_
      rw [Function.comp_apply, Function.comp_apply,
        components_parts halike.absolute.2 (hchosen parts hmem).1, components_start he]

/-! ### A star in the name of a directory -/

/-- The same translation in two directories, one of which has a star in its name. -/
def twice : FileSystem where
  entries := [(["w"], .directory),
    (["w", "a*b"], .directory), (["w", "a*b", "po"], .directory), (["w", "a*b", "po", "de"], leaf),
    (["w", "ab"], .directory), (["w", "ab", "po"], .directory), (["w", "ab", "po", "de"], leaf)]
  workingDirectory := ["w"]
where
  leaf : Entry := .file ⟨.data ByteArray.empty, false⟩

theorem twice_surveyed : Surveyed twice ⟨"/w/a*b"⟩ [[], ["po"], ["po", "de"]] ∧
    Surveyed twice ⟨"/w/ab"⟩ [[], ["po"], ["po", "de"]] :=
  ⟨⟨by decide +kernel, by decide +kernel⟩, ⟨by decide +kernel, by decide +kernel⟩⟩

theorem twice_isTree : twice.IsTree := isTree_of_entries (by decide) (by decide)

theorem twice_tidy : twice.Tidy := ⟨by decide, by decide, by decide⟩

theorem starred_directory_matches :
    ∃ files files', ∃ found : List Location,
      matchesBelow twice ⟨"/w/a*b"⟩ "**/d*" = .ok files ∧
      matchesBelow twice ⟨"/w/ab"⟩ "**/d*" = .ok files' ∧
      (∀ names ∈ found, names ≠ [] ∧ Named names) ∧
      files.map Path.components =
        found.map (fun names => (Path.mk "/w/a*b").components ++ names.map .name) ∧
      files'.map Path.components =
        found.map (fun names => (Path.mk "/w/ab").components ++ names.map .name) := by
  have hd : (Path.mk "/w/a*b").isAbsolute = true := by decide
  have he : (Path.mk "/w/ab").isAbsolute = true := by decide
  have hsame : SameBelow twice twice ⟨"/w/a*b"⟩ ⟨"/w/ab"⟩ :=
    twice_surveyed.1.sameBelow twice_surveyed.2 twice_isTree twice_isTree hd he
      (by decide +kernel) (by decide +kernel)
  have hread : Readable twice ⟨"/w/a*b"⟩ :=
    twice_surveyed.1.readable twice_isTree hd (by decide +kernel) (by decide +kernel)
  have hread' : Readable twice ⟨"/w/ab"⟩ :=
    twice_surveyed.2.readable twice_isTree he (by decide +kernel) (by decide +kernel)
  refine (matchesBelow_moved twice_isTree twice_isTree twice_tidy twice_tidy hd he hsame hread
    hread' (by decide)).resolve_left ?_
  rintro ⟨err, -, hrefused, -⟩
  have hcompiled : (Query.ofText (patternBelow ⟨"/w/a*b"⟩ "**/d*")).isOk = true := by decide
  rw [matchesBelow_refused_iff.mp hrefused] at hcompiled
  cases hcompiled

end StableWheel.PackageLayout
