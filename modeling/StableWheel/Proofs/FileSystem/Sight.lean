import StableWheel.Proofs.FileSystem.Naming
import StableWheel.Proofs.Path.Shorter

/-! What is to be seen below a directory.

All that a search can ask about a path is its `sight`. Two directories hold the same if the same is
to be seen at each path below them (`SameBelow`).

A search puts the path of a directory together anew, and that path may be shorter than the one that
was given. What is to be seen from there is the same (`sight_shorter`), as long as nothing that is
listed below the directory is out of reach by the length of its path (`Readable`). -/
namespace StableWheel.FileSystem
open StableWheel.Path (Shorter)

/-- What a path leads to: whether to a file, whether to anything at all, and the names in it if it is
a directory. -/
structure Sight where
  file : Bool
  present : Bool
  listing : Option (List String)
  deriving DecidableEq

def sight (fs : FileSystem) (p : Path) : Sight :=
  ⟨fs.isFile p, fs.exists? p, (fs.readDirectory p).toOption⟩

/-- Nothing is there. -/
def Sight.nothing : Sight := ⟨false, false, none⟩

/-- The same is to be seen below two directories. -/
structure SameBelow (a b : FileSystem) (d e : Path) : Prop where
  directories : a.isDirectory d = true ∧ b.isDirectory e = true
  sight : ∀ names, Named names → sight a (d.extend names) = sight b (e.extend names)

/-- Whatever is listed below a directory can be looked up by its path, and so can every directory
with a separator behind its path. -/
structure Readable (fs : FileSystem) (d : Path) : Prop where
  entries : ∀ names listed, Named names → fs.readDirectory (d.extend names) = .ok listed →
    ∀ name ∈ listed, fs.exists? ((d.extend names).join ⟨name⟩) = true
  separator : ∀ names, Named names → fs.isDirectory (d.extend names) = true →
    fs.isDirectory ((d.extend names).join ⟨""⟩) = true

variable {a b fs : FileSystem} {ending : Ending} {d e p q : Path} {place : Location} {n : Entry}
  {names parts : List String} {name : String}

/-! ### One path -/

theorem listing_eq_some_iff {listed : List String} :
    (sight fs p).listing = some listed ↔
      ∃ place, fs.find p .followed = .ok (place, .directory) ∧ listed = fs.names place := by
  unfold sight readDirectory
  rcases fs.find p .followed with e | ⟨place, f | _ | target⟩ <;>
    simp [bind, Except.bind, Except.toOption, throw, throwThe, MonadExceptOf.throw, pure,
      Except.pure, eq_comm]

theorem readDirectory_of_listing {listed : List String}
    (h : (sight fs p).listing = some listed) : fs.readDirectory p = .ok listed := by
  obtain ⟨place, hfound, rfl⟩ := listing_eq_some_iff.mp h
  rw [readDirectory, hfound]
  rfl

theorem isDirectory_eq (fs : FileSystem) (p : Path) :
    fs.isDirectory p = (sight fs p).listing.isSome := by
  rw [Bool.eq_iff_iff, isDirectory_iff, Option.isSome_iff_exists]
  simp only [listing_eq_some_iff]
  constructor
  · rintro ⟨place, hfound⟩
    exact ⟨_, place, hfound, rfl⟩
  · rintro ⟨_, place, hfound, -⟩
    exact ⟨place, hfound⟩

/-- A path that leads to something leads to a file or to a directory. -/
theorem status_isOk (ht : fs.IsTree) (p : Path) :
    (fs.status p).isOk = (fs.isFile p || fs.isDirectory p) := by
  unfold isFile isDirectory status
  rcases hfound : fs.find p .followed with e | ⟨place, f | _ | target⟩
  · rfl
  · rfl
  · rfl
  · obtain ⟨hr, hl⟩ := find_iff.mp hfound
    exact absurd hl ((ht.lands hr).plain (by simp) target)

theorem sight_of_find (h : ∀ ending, a.find p ending = b.find q ending)
    (hnames : ∀ place, a.names place = b.names place) : sight a p = sight b q := by
  unfold sight isFile exists? readDirectory status
  simp only [h, hnames]

/-! ### Shorter paths -/

theorem checkPath_iff : checkPath p = .ok () ↔
    '\x00' ∉ p.text.toList ∧ p.isEmpty = false ∧ p.text.utf8ByteSize ≤ pathLimit := by
  unfold checkPath
  split
  · next hzero => simp_all
  · next hzero =>
    split
    · next hempty => simp [hempty]
    · next hempty =>
      split
      · next hlong => simp [Nat.not_le.mpr hlong]
      · next hlong => simp_all

theorem checkPath_mono (hq : checkPath q = .ok ()) (hp : p.isAbsolute = true)
    (hsize : p.text.utf8ByteSize ≤ q.text.utf8ByteSize) (hchars : p.text.toList ⊆ q.text.toList) :
    checkPath p = .ok () := by
  obtain ⟨hzero, -, hlimit⟩ := checkPath_iff.mp hq
  exact checkPath_iff.mpr ⟨fun hmem => hzero (hchars hmem), Path.isEmpty_of_absolute hp,
    hsize.trans hlimit⟩

/-- The same is found with a shorter path. -/
theorem find_shorter (h : Shorter p q) (hq : checkPath q = .ok ()) (ending : Ending) :
    fs.find p ending = fs.find q ending := by
  have hp := checkPath_mono hq h.absolute.1 h.size h.chars
  have hresolve : fs.resolve p ending = fs.resolve q ending := by
    rw [resolve, resolve, hp, hq, h.ofPath, origin, origin, h.absolute.1, h.absolute.2]
  rw [find, find, hresolve]

/-! ### On the way -/

theorem Walk.slashed {links : Nat} {start found : Location} {steps : List Step}
    (h : Walk fs .followed links start steps found) (hfound : fs.lookup found = some .directory) :
    Walk fs .followed links start (steps ++ [.inside]) found := by
  induction h with
  | here => exact .inside .here
  | stay _ ih => exact .stay (ih hfound)
  | inside _ ih => exact .inside (ih hfound)
  | up _ ih => exact .up (ih hfound)
  | directory hp hl _ ih => exact .directory ⟨by simp, hp.2⟩ hl (ih hfound)
  | nothing _ hl | file _ hl | kept _ hl _ =>
    rw [hl] at hfound
    cases hfound
  | followed hp hl _ _ ih =>
    have hrest := ih hfound
    rw [List.append_assoc] at hrest
    exact .followed ⟨by simp, hp.2⟩ hl (by simp) hrest

theorem exists_of_isDirectory (h : fs.isDirectory p = true) : fs.exists? p = true := by
  obtain ⟨place, hfound⟩ := isDirectory_iff.mp h
  rw [exists?]
  rcases find_kept_or_link hfound with hkept | ⟨link, target, hlink⟩
  · rw [hkept]
    rfl
  · rw [hlink]
    rfl

theorem ofPath_join_empty (hp : p.isAbsolute = true) :
    Step.ofPath (p.join ⟨""⟩) = Step.named p ++ [.inside] := by
  have hend : Step.wantsDirectory (p.join ⟨""⟩) = true := by
    rw [Path.wantsDirectory_join_name hp (by simp)]
    rfl
  rw [Step.ofPath, hend, if_pos rfl, Step.named_join (by decide), Step.named_empty, List.append_nil]

/-- At the end of a path to a directory a separator makes no difference. -/
theorem find_directory (hchecked : checkPath p = .ok ()) (hp : p.isAbsolute = true)
    (hw : Walk fs .followed linkLimit [] (Step.named p) place)
    (hl : fs.lookup place = some .directory) : fs.find p .followed = .ok (place, .directory) := by
  refine find_iff.mpr ⟨resolve_iff.mpr ⟨hchecked, ?_⟩, hl⟩
  rw [origin, if_pos hp]
  obtain ⟨last, rfl | rfl, hlast⟩ := Step.ofPath_eq p
  · rwa [hlast, List.append_nil]
  · rw [hlast]
    exact hw.slashed hl

/-- If the steps of a path come first among those of another one that leads somewhere, the path leads
to a directory on the way there. -/
theorem find_front (ht : fs.IsTree) (hp : p.isAbsolute = true) (hq : q.isAbsolute = true)
    (hsize : p.text.utf8ByteSize ≤ q.text.utf8ByteSize) (hchars : p.text.toList ⊆ q.text.toList)
    {more : List Step} (hsteps : Step.ofPath q = Step.named p ++ more)
    (hend : more = [] → n = .directory) (h : fs.find q ending = .ok (place, n)) :
    ∃ room links, fs.find p .followed = .ok (room, .directory) ∧
      Walk fs ending links room more place := by
  obtain ⟨hr, hl⟩ := find_iff.mp h
  obtain ⟨hchecked, hw⟩ := resolve_iff.mp hr
  rw [origin, if_pos hq, hsteps] at hw
  obtain ⟨room, links, hroom, hdirectory, hrest⟩ :=
    hw.cut ht (lookup_root fs) fun hnil => by rw [hl, hend hnil]
  exact ⟨room, links, find_directory (checkPath_mono hchecked hp hsize hchars) hp hroom hdirectory,
    hrest⟩

/-- Whatever has a path below another one is in a directory. -/
theorem find_above (ht : fs.IsTree) (hp : p.isAbsolute = true) (hname : '/' ∉ name.toList)
    {more : List Step} (hmore : more ≠ [])
    (hsteps : Step.ofPath (p.join ⟨name⟩) = Step.named p ++ more)
    (h : fs.find (p.join ⟨name⟩) ending = .ok (place, n)) :
    ∃ room links, fs.find p .followed = .ok (room, .directory) ∧
      Walk fs ending links room more place := by
  refine find_front ht hp (Path.isAbsolute_join_left hp) ?_ ?_ hsteps (fun hnil => absurd hnil hmore) h
  · rw [Path.text_join hp hname]
    simp only [String.utf8ByteSize_append]
    omega
  · rw [Path.text_join hp hname]
    intro c hc
    simp [hc]

theorem find_above_name (ht : fs.IsTree) (hp : p.isAbsolute = true) (hname : Nameable name)
    (h : fs.find (p.join ⟨name⟩) ending = .ok (place, n)) :
    ∃ listed, (sight fs p).listing = some listed ∧ name ∈ listed := by
  obtain ⟨room, links, hroom, hrest⟩ := find_above ht hp hname.2.2.2 (List.cons_ne_nil _ _)
    (Step.ofPath_join_name p hname) h
  refine ⟨_, listing_eq_some_iff.mpr ⟨room, hroom, rfl⟩, mem_names.mpr ?_⟩
  have hl := (find_iff.mp h).2
  cases hrest with
  | directory _ hd _ => simp [hd]
  | nothing _ hnone =>
    rw [hnone] at hl
    cases hl
  | file _ hf => simp [hf]
  | kept _ hk _ => simp [hk]
  | followed _ hk _ _ => simp [hk]

theorem find_above_separator (ht : fs.IsTree) (hp : p.isAbsolute = true)
    (h : fs.find (p.join ⟨""⟩) ending = .ok (place, n)) : fs.isDirectory p = true := by
  obtain ⟨room, -, hroom, -⟩ := find_above ht hp (by simp) (List.cons_ne_nil _ _)
    (ofPath_join_empty hp) h
  exact isDirectory_iff.mpr ⟨room, hroom⟩

/-! ### A separator at the end -/

theorem sight_directory (h : fs.find p .followed = .ok (place, .directory)) :
    sight fs p = ⟨false, true, some (fs.names place)⟩ := by
  have hpresent := exists_of_isDirectory (isDirectory_iff.mpr ⟨place, h⟩)
  have hlisting := listing_eq_some_iff.mpr ⟨place, h, rfl⟩
  rw [sight] at hlisting ⊢
  dsimp only at hlisting
  rw [hpresent, hlisting, isFile, status, h]
  rfl

theorem sight_missing (h : ∀ ending n, fs.find p ending ≠ .ok n) : sight fs p = .nothing := by
  have herror (ending : Ending) : ∃ e, fs.find p ending = .error e := by
    rcases hfound : fs.find p ending with e | n
    · exact ⟨e, rfl⟩
    · exact absurd hfound (h ending n)
  obtain ⟨e, he⟩ := herror .followed
  obtain ⟨e', he'⟩ := herror .kept
  rw [sight, isFile, status, exists?, readDirectory, he, he']
  rfl

/-- With a separator at the end a directory is seen as before. -/
theorem sight_separator (ht : fs.IsTree) (hp : p.isAbsolute = true)
    (h : fs.isDirectory (p.join ⟨""⟩) = true) : sight fs (p.join ⟨""⟩) = sight fs p := by
  obtain ⟨place, hfound⟩ := isDirectory_iff.mp h
  obtain ⟨room, links, hroom, hrest⟩ := find_above ht hp (by simp) (List.cons_ne_nil _ _)
    (ofPath_join_empty hp) hfound
  cases hrest with
  | inside hrest =>
    cases hrest
    rw [sight_directory hfound, sight_directory hroom]

theorem sight_separator_of_not (ht : fs.IsTree) (hp : p.isAbsolute = true)
    (h : fs.isDirectory p = false) : sight fs (p.join ⟨""⟩) = .nothing := by
  refine sight_missing fun ending found hfound => ?_
  rw [find_above_separator ht hp hfound] at h
  cases h

/-! ### Below a directory -/

theorem checkPath_of_find {found : Location × Entry} (h : fs.find p ending = .ok found) :
    checkPath p = .ok () := (resolve_iff.mp (find_iff.mp h).1).1

theorem checkPath_of_isDirectory (h : fs.isDirectory p = true) : checkPath p = .ok () := by
  obtain ⟨place, hfound⟩ := isDirectory_iff.mp h
  exact checkPath_of_find hfound

theorem checkPath_of_exists (h : fs.exists? p = true) : checkPath p = .ok () := by
  rw [exists?] at h
  rcases hfound : fs.find p .kept with e | found
  · rw [hfound] at h
    cases h
  · exact checkPath_of_find hfound

/-- What is below a directory is to be seen with a shorter path for the directory as well. The
induction is on the names: what is listed under the shorter path is listed under the given one, and
can be looked up there. -/
theorem sight_shorter (ht : fs.IsTree) (hread : Readable fs d) (hd : fs.isDirectory d = true)
    (h : Shorter p d) (hnames : Named names) :
    sight fs (p.extend names) = sight fs (d.extend names) := by
  induction names using List.reverseRecOn with
  | nil => exact sight_of_find (find_shorter h (checkPath_of_isDirectory hd)) fun _ => rfl
  | append_singleton names name ih =>
    have hname : Nameable name := hnames name (by simp)
    have hrest : Named names := fun other hother => hnames other (List.mem_append_left _ hother)
    have hslash : ∀ part ∈ names, '/' ∉ part.toList := fun part hpart => (hrest part hpart).2.2.2
    rw [Path.extend_concat, Path.extend_concat]
    by_cases hchecked : checkPath ((d.extend names).join ⟨name⟩) = .ok ()
    · exact sight_of_find (find_shorter ((h.extend hslash).join hname.2.2.2) hchecked) fun _ => rfl
    · have hmissing : sight fs ((d.extend names).join ⟨name⟩) = .nothing :=
        sight_missing fun ending found hfound => hchecked (checkPath_of_find hfound)
      rw [hmissing]
      refine sight_missing fun ending found hfound => hchecked ?_
      obtain ⟨listed, hlisted, hmem⟩ := find_above_name ht
        (Path.isAbsolute_extend h.absolute.1 names) hname hfound
      rw [ih hrest] at hlisted
      have hlisting := readDirectory_of_listing hlisted
      exact checkPath_of_exists (hread.entries names listed hrest hlisting name hmem)

/-- A separator at the end asks for a directory, and makes no other difference. -/
theorem sight_shorter_separator (ht : fs.IsTree) (hread : Readable fs d)
    (hd : fs.isDirectory d = true) (h : Shorter p d) (hnames : Named names) :
    sight fs ((p.extend names).join ⟨""⟩) =
      if (sight fs (p.extend names)).listing.isSome then sight fs (p.extend names)
      else .nothing := by
  have habsolute := Path.isAbsolute_extend h.absolute.1 names
  have hslash : ∀ part ∈ names, '/' ∉ part.toList := fun part hpart => (hnames part hpart).2.2.2
  rw [← isDirectory_eq]
  split
  · next hdirectory =>
    have hgiven : fs.isDirectory (d.extend names) = true := by
      rwa [isDirectory_eq, ← sight_shorter ht hread hd h hnames, ← isDirectory_eq]
    have hend := hread.separator names hnames hgiven
    refine sight_separator ht habsolute ?_
    rw [isDirectory, status, find_shorter ((h.extend hslash).join (by simp))
      (checkPath_of_isDirectory hend), ← status, ← isDirectory, hend]
  · next hdirectory => exact sight_separator_of_not ht habsolute (by simpa using hdirectory)

/-- A part of a path below a directory: a name, or nothing, which leaves a separator. -/
def PathPart (part : String) : Prop := part = "" ∨ Nameable part

theorem PathPart.noSeparator {part : String} (h : PathPart part) : '/' ∉ part.toList := by
  rcases h with rfl | h
  · simp
  · exact h.2.2.2

theorem named_filter (hparts : ∀ part ∈ parts, PathPart part) : Named (parts.filter (· ≠ "")) := by
  intro name hname
  obtain ⟨hmem, hne⟩ := List.mem_filter.mp hname
  exact (hparts name hmem).resolve_left (by simpa using hne)

/-- The same is to be seen below both directories, whatever separators there are. -/
theorem SameBelow.seen (h : SameBelow a b d e) (hta : a.IsTree) (htb : b.IsTree)
    (hreada : Readable a d) (hreadb : Readable b e) (hp : Shorter p d) (hq : Shorter q e)
    (hparts : ∀ part ∈ parts, PathPart part) :
    FileSystem.sight a (p.extend parts) = FileSystem.sight b (q.extend parts) := by
  have hslash : ∀ part ∈ parts, '/' ∉ part.toList :=
    fun part hpart => (hparts part hpart).noSeparator
  have hnamed := named_filter hparts
  have hleft := sight_shorter hta hreada h.directories.1 hp hnamed
  have hright := sight_shorter htb hreadb h.directories.2 hq hnamed
  have hsame := (hleft.trans (h.sight _ hnamed)).trans hright.symm
  rw [Path.extend_idle hp.absolute.1 hslash, Path.extend_idle hq.absolute.1 hslash]
  split
  · rw [sight_shorter_separator hta hreada h.directories.1 hp hnamed,
      sight_shorter_separator htb hreadb h.directories.2 hq hnamed, hsame]
  · exact hsame

/-! ### All there is below a directory -/

/-- A list of places below a directory with everything that is listed in them. -/
structure Surveyed (fs : FileSystem) (d : Path) (places : List Location) : Prop where
  start : [] ∈ places
  closed : ∀ names ∈ places, ∀ name ∈ (sight fs (d.extend names)).listing.getD [],
    names ++ [name] ∈ places

/-- Where nobody came by there is nothing. -/
theorem Surveyed.nothing {places : List Location} (h : Surveyed fs d places) (ht : fs.IsTree)
    (hd : d.isAbsolute = true) (hnames : Named names) (hout : names ∉ places) :
    sight fs (d.extend names) = .nothing := by
  induction names using List.reverseRecOn with
  | nil => exact absurd h.start hout
  | append_singleton names name ih =>
    have hname : Nameable name := hnames name (by simp)
    have hrest : Named names := fun other hother => hnames other (List.mem_append_left _ hother)
    rw [Path.extend_concat]
    refine sight_missing fun ending found hfound => ?_
    obtain ⟨listed, hlisted, hmem⟩ :=
      find_above_name ht (Path.isAbsolute_extend hd names) hname hfound
    by_cases hin : names ∈ places
    · refine hout (h.closed names hin name ?_)
      rwa [hlisted]
    · rw [ih hrest hin] at hlisted
      cases hlisted

/-- Whether the same is to be seen shows in the places that a survey comes by. -/
theorem Surveyed.sameBelow {places : List Location} (h : Surveyed a d places)
    (h' : Surveyed b e places) (hta : a.IsTree) (htb : b.IsTree) (hd : d.isAbsolute = true)
    (he : e.isAbsolute = true) (hdirectories : a.isDirectory d = true ∧ b.isDirectory e = true)
    (hsame : ∀ names ∈ places, FileSystem.sight a (d.extend names) =
      FileSystem.sight b (e.extend names)) : SameBelow a b d e := by
  refine ⟨hdirectories, fun names hnames => ?_⟩
  by_cases hin : names ∈ places
  · exact hsame names hin
  · rw [h.nothing hta hd hnames hin, h'.nothing htb he hnames hin]

theorem Surveyed.readable {places : List Location} (h : Surveyed fs d places) (ht : fs.IsTree)
    (hd : d.isAbsolute = true)
    (hentries : ∀ names ∈ places, ∀ name ∈ (sight fs (d.extend names)).listing.getD [],
      fs.exists? ((d.extend names).join ⟨name⟩) = true)
    (hseparator : ∀ names ∈ places, fs.isDirectory (d.extend names) = true →
      fs.isDirectory ((d.extend names).join ⟨""⟩) = true) : Readable fs d := by
  have hlisting : ∀ {p listed}, fs.readDirectory p = .ok listed →
      (sight fs p).listing = some listed := fun hread => by rw [sight, hread]; rfl
  refine ⟨fun names listed hnames hread name hname => ?_, fun names hnames hdirectory => ?_⟩
  · by_cases hin : names ∈ places
    · refine hentries names hin name ?_
      rwa [hlisting hread]
    · have hnothing := hlisting hread
      rw [h.nothing ht hd hnames hin] at hnothing
      cases hnothing
  · by_cases hin : names ∈ places
    · exact hseparator names hin hdirectory
    · rw [isDirectory_eq, h.nothing ht hd hnames hin] at hdirectory
      cases hdirectory

end StableWheel.FileSystem
