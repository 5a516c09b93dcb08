import StableWheel.Proofs.FileSystem.Abreast
import StableWheel.Proofs.Package.Faithful
import StableWheel.Proofs.Package.Rounds

/-! Staging again.

Staging once more may find what the first time has left. It changes nothing exactly when, among the
files that are there, every round selects files whose targets are files already, and the contents
come out the same when these are copied in order (`Repeats`); then it never changes anything however
often it is done (`stage_again_iff`). This is so if no source is also a target and every round
selects what it selected the first time. It is not if a pattern reaches into the build tree: the
tree grows (`staging_again_grows`). -/
namespace StableWheel.PackageLayout
open FileSystem

/-! ### Copies between files that are there -/

/-- A copy that makes nothing new: the directory above the target is there, and the source and the
target are files. -/
structure Copy.Stands (fs : FileSystem) (c : Copy) : Prop where
  room : ∀ above, c.target.parent = some above →
    above.components = [] ∨ fs.isDirectory above = true
  source : ∃ f, fs.find c.source .followed = .ok (c.origin, .file f)
  target : fs.resolve c.target .written = .ok c.place
  taken : ∃ f, fs.lookup c.place = some (.file f)

/-- What becomes of the files when a copy is made between places that are files. -/
def Copy.redo (fs : FileSystem) (c : Copy) : FileSystem :=
  match fs.lookup c.origin with
  | some (.file f) => fs.put c.place (.file (leaves f c.origin c.place))
  | _ => fs

/-- What becomes of the files when copies are made in order between places that are files. -/
def redo (fs : FileSystem) (cs : List Copy) : FileSystem := cs.foldl Copy.redo fs

variable {a b before after : FileSystem} {c : Copy} {cs : List Copy}

theorem Copy.redo_sameFiles (h : SameFiles a b) (c : Copy) : SameFiles (c.redo a) (c.redo b) := by
  unfold Copy.redo
  rw [h.lookup]
  split
  · exact h.put _ _
  · exact h

theorem redo_sameFiles (h : SameFiles a b) (cs : List Copy) :
    SameFiles (redo a cs) (redo b cs) := by
  induction cs generalizing a b with
  | nil => exact h
  | cons c rest ih => exact ih (c.redo_sameFiles h)

theorem Copy.Stands.grows (h : c.Stands a) (hgrows : Grows a b) : c.Stands b where
  room above habove := (h.room above habove).imp_right fun hdirectory => by
    obtain ⟨place, hfound⟩ := isDirectory_iff.mp hdirectory
    exact isDirectory_iff.mpr ⟨place, hgrows.find_directory hfound⟩
  source := by
    obtain ⟨f, hf⟩ := h.source
    exact hgrows.find_file hf
  target := hgrows.resolve h.target
  taken := by
    obtain ⟨f, hf⟩ := h.taken
    exact hgrows.file c.place f hf

theorem Copy.Stands.redo_eq (h : c.Stands a) :
    ∃ f, a.find c.source .followed = .ok (c.origin, .file f) ∧
      c.redo a = a.put c.place (.file (leaves f c.origin c.place)) := by
  obtain ⟨f, hf⟩ := h.source
  refine ⟨f, hf, ?_⟩
  unfold Copy.redo
  rw [(find_iff.mp hf).2]

theorem Copy.Stands.redo_shape (h : c.Stands a) : SameShape a (c.redo a) := by
  obtain ⟨f, -, heq⟩ := h.redo_eq
  obtain ⟨f', hf'⟩ := h.taken
  rw [heq]
  exact .put_file hf'

/-- A directory that is there need not be made. -/
theorem ensureDirectory_of_found {p : Path} {place : Location}
    (h : a.find p .followed = .ok (place, .directory)) : a.ensureDirectory p = (.ok (), a) := by
  unfold ensureDirectory
  rcases createDirectory_found a p with ⟨e, hsame⟩ | ⟨other, hnone, hput, hfound⟩
  · rw [hsame]
    dsimp only
    rw [if_pos (isDirectory_iff.mpr ⟨place, h⟩)]
  · -- the new directory would be in the place of the one that is there
    have hroot : other ≠ [] := ne_root (by rw [hnone]; simp)
    rw [(put_grows hroot (by simp) (.inl hnone)).find_directory h] at hfound
    cases hfound
    rw [(find_iff.mp h).2] at hnone
    cases hnone

theorem Copy.Stands.makeRoom (h : c.Stands a) : makeRoom a c.target = (.ok (), a) := by
  unfold PackageLayout.makeRoom
  split
  · rfl
  · next above habove =>
    unfold createDirectories
    rcases h.room above habove with hnone | hdirectory
    · rw [hnone]
      rfl
    · obtain ⟨place, hfound⟩ := isDirectory_iff.mp hdirectory
      have hensured := ensureDirectory_of_found hfound
      split
      · rfl
      · cases above.components.length with
        | zero => exact hensured
        | succ n =>
          unfold createUpwards
          rw [hensured]

theorem Copy.Stands.made (h : c.Stands a) : c.Made a (c.redo a) := by
  obtain ⟨f, hf, heq⟩ := h.redo_eq
  obtain ⟨f', hf'⟩ := h.taken
  exact ⟨a, f, h.makeRoom, hf, h.target, by rw [hf']; simp, heq⟩

/-! ### Copies that keep the shape -/

theorem makeRoom_makes (fs : FileSystem) (target : Path) :
    ∃ p, Makes p fs (PackageLayout.makeRoom fs target).2 := by
  unfold PackageLayout.makeRoom
  split
  · exact ⟨target, .refl target fs⟩
  · exact ⟨_, createDirectories_makes fs _⟩

/-- The directory above is there when there is room. -/
theorem makeRoom_ok {target : Path} {room : FileSystem}
    (h : PackageLayout.makeRoom before target = (.ok (), room)) (above : Path)
    (habove : target.parent = some above) :
    above.components = [] ∨ room.isDirectory above = true := by
  unfold PackageLayout.makeRoom createDirectories at h
  rw [habove] at h
  dsimp only at h
  split at h
  · next hempty => exact .inl (List.isEmpty_iff.mp hempty)
  · exact .inr (isDirectory_iff.mpr (createUpwards_ok h))

/-- A copy that keeps the shape only rewrites a file. -/
theorem Copy.Made.stands (h : c.Made before after) (ht : before.IsTree)
    (hshape : SameShape before after) : c.Stands before ∧ SameFiles (c.redo before) after := by
  obtain ⟨room, f, hroom, hfound, hplace, hfree, rfl⟩ := h
  obtain ⟨p, hmakes⟩ := makeRoom_makes before c.target
  rw [hroom] at hmakes
  have hput := put_file_grows (makeRoom_keepsTree hroom ht) hplace hfree (leaves f c.origin c.place)
  have hsame := hmakes.sameFiles (hshape.between hmakes.grows hput)
  have hstands : c.Stands before := by
    refine Copy.Stands.grows ⟨makeRoom_ok hroom, ⟨f, hfound⟩, hplace, ?_⟩ hsame.symm.shape.grows
    -- what is a file in the end was one before
    have hafter : (room.put c.place (.file (leaves f c.origin c.place))).lookup c.place =
        some (.file (leaves f c.origin c.place)) := lookup_put_self _ _ _ (ne_root hfree)
    exact (hshape.symm.trans hsame.shape).file hafter
  refine ⟨hstands, ?_⟩
  have hbefore : before.lookup c.origin = some (.file f) := by
    rw [← hsame.lookup, (find_iff.mp hfound).2]
  unfold Copy.redo
  rw [hbefore]
  exact hsame.put _ _

theorem Copies.stands (h : Copies before cs after) (ht : before.IsTree)
    (hshape : SameShape before after) :
    (∀ c ∈ cs, c.Stands before) ∧ SameFiles (redo before cs) after := by
  induction h with
  | nil => exact ⟨fun c hc => absurd hc List.not_mem_nil, .refl _⟩
  | @cons c rest before between after hmade hrest ih =>
    have htree := hmade.keepsTree ht
    have hfirst := SameShape.between (hmade.grows ht) (hrest.grows htree) hshape
    obtain ⟨hstands, hredone⟩ := hmade.stands ht hfirst
    obtain ⟨hall, hafter⟩ := ih htree (hfirst.symm.trans hshape)
    refine ⟨fun c' hc' => ?_, (redo_sameFiles hredone rest).trans hafter⟩
    rcases List.mem_cons.mp hc' with rfl | hc'
    · exact hstands
    · exact (hall c' hc').grows hfirst.symm.grows

theorem redo_shape (h : ∀ c ∈ cs, c.Stands a) : SameShape a (redo a cs) := by
  induction cs generalizing a with
  | nil => exact .refl a
  | cons c rest ih =>
    have hfirst := (h c (List.mem_cons_self ..)).redo_shape
    exact hfirst.trans (ih fun c' hc' => (h c' (List.mem_cons_of_mem _ hc')).grows hfirst.grows)

theorem copies_of_stands (h : ∀ c ∈ cs, c.Stands a) : Copies a cs (redo a cs) := by
  induction cs generalizing a with
  | nil => exact .nil
  | cons c rest ih =>
    have hc := h c (List.mem_cons_self ..)
    refine .cons hc.made (ih fun c' hc' => ?_)
    exact (h c' (List.mem_cons_of_mem _ hc')).grows hc.redo_shape.grows

/-! ### Rounds in one file system -/

/-- Rounds that all select in one file system, with the sources and targets that they come to. -/
inductive Selects (fs : FileSystem) : List Round → List (Path × Path) → Prop where
  | nil : Selects fs [] []
  | cons {r rest files pairs} : Round.select r fs = .ok files → Selects fs rest pairs →
      Selects fs (r :: rest) (files.map r.pair ++ pairs)

/-- Where a copy is from and where it goes. -/
def Copy.pair (c : Copy) : Path × Path := (c.source, c.target)

variable {l : PackageLayout} {root lib : Path} {rs : List Round}

theorem Selects.of_sameShape {pairs : List (Path × Path)} (h : Selects a rs pairs)
    (hrs : ∀ r ∈ rs, r ∈ l.rounds root lib) (hshape : SameShape a b) (ha : a.Tidy) (hb : b.Tidy) :
    Selects b rs pairs := by
  induction h with
  | nil => exact .nil
  | cons hselect _ ih =>
    rw [select_of_sameShape hshape ha hb (hrs _ (List.mem_cons_self ..))] at hselect
    exact .cons hselect (ih fun r hr => hrs r (List.mem_cons_of_mem _ hr))

/-- Rounds that keep the shape select all along what they select at the start. -/
theorem Rounds.selects (h : Rounds rs before cs after) (hrs : ∀ r ∈ rs, r ∈ l.rounds root lib)
    (ht : before.IsTree) (htidy : before.Tidy) (hshape : SameShape before after) :
    Selects before rs (cs.map Copy.pair) := by
  induction h with
  | nil => exact .nil
  | @cons r rest before between after files cs cs' hselect hpairs hcopies hrest ih =>
    have htree := hcopies.keepsTree ht
    have htidy' := hcopies.tidy htidy
    have hfirst := SameShape.between (hcopies.grows ht) (hrest.copies.grows htree) hshape
    have hrs' : ∀ r ∈ rest, r ∈ l.rounds root lib := fun r hr => hrs r (List.mem_cons_of_mem _ hr)
    have hlater := ih hrs' htree htidy' (hfirst.symm.trans hshape)
    rw [List.map_append]
    have hpairs' : cs.map Copy.pair = files.map r.pair := hpairs
    rw [hpairs']
    exact .cons hselect (hlater.of_sameShape hrs' hfirst.symm htidy' htidy)

theorem rounds_of_selects {pairs : List (Path × Path)} (h : Selects a rs pairs)
    (hrs : ∀ r ∈ rs, r ∈ l.rounds root lib) (htidy : a.Tidy) (hcs : cs.map Copy.pair = pairs)
    (hstands : ∀ c ∈ cs, c.Stands a) : Rounds rs a cs (redo a cs) := by
  -- along the rounds the files change, but not their shape
  have hall : ∀ before : FileSystem, before.Tidy → SameShape a before →
      Rounds rs before cs (redo before cs) := by
    induction h generalizing cs with
    | nil =>
      obtain rfl := List.map_eq_nil_iff.mp hcs
      exact fun before _ _ => .nil
    | cons hselect _ ih =>
      intro before htidy' hshape
      obtain ⟨earlier, later, rfl, hearlier, hlater⟩ := List.map_eq_append_iff.mp hcs
      have hstands' : ∀ c ∈ earlier, c.Stands before := fun c hc =>
        (hstands c (List.mem_append_left _ hc)).grows hshape.grows
      have hcopies := copies_of_stands hstands'
      rw [select_of_sameShape hshape htidy htidy' (hrs _ (List.mem_cons_self ..))] at hselect
      have hrest := ih (fun r hr => hrs r (List.mem_cons_of_mem _ hr)) hlater
        (fun c hc => hstands c (List.mem_append_right _ hc)) (redo before earlier)
        (hcopies.tidy htidy') (hshape.trans (redo_shape hstands'))
      rw [redo, List.foldl_append]
      exact .cons hselect hearlier hcopies hrest
  exact hall a htidy (.refl a)

/-! ### Nothing changes -/

/-- Nothing comes of staging. From the files that are there every round selects files whose targets
are files, each path of the answer among them and no other, and when these are copied in order every
file comes out as it is. -/
def Repeats (l : PackageLayout) (root lib : Path) (fs : FileSystem) (files : List Path) : Prop :=
  ∃ cs : List Copy, Selects fs (l.rounds root lib) (cs.map Copy.pair) ∧ (∀ c ∈ cs, c.Stands fs) ∧
    files = Path.sorted (cs.map Copy.target) ∧ SameFiles fs (redo fs cs)

variable {files : List Path}

theorem Repeats.of_sameFiles (h : Repeats l root lib a files) (hsame : SameFiles a b)
    (ha : a.Tidy) (hb : b.Tidy) : Repeats l root lib b files := by
  obtain ⟨cs, hselects, hstands, hfiles, hredo⟩ := h
  exact ⟨cs, hselects.of_sameShape (fun _ hr => hr) hsame.shape ha hb,
    fun c hc => (hstands c hc).grows hsame.shape.grows, hfiles,
    (hsame.symm.trans hredo).trans (redo_sameFiles hsame cs)⟩

/-- Staging leaves all files as they are exactly when nothing comes of it. -/
theorem stage_still_iff {s : Session} (ht : s.files.IsTree) (htidy : s.files.Tidy) :
    (∃ again, (l.stage root lib).run s = (.ok files, again) ∧ SameFiles s.files again.files) ↔
      Repeats l root lib s.files files := by
  constructor
  · rintro ⟨again, hrun, hsame⟩
    obtain ⟨cs, hrounds, hfiles⟩ := stage_ok hrun
    obtain ⟨hstands, hredo⟩ := hrounds.copies.stands ht hsame.shape
    exact ⟨cs, hrounds.selects (fun _ hr => hr) ht htidy hsame.shape, hstands, hfiles,
      hsame.trans hredo.symm⟩
  · rintro ⟨cs, hselects, hstands, hfiles, hredo⟩
    have hrounds := rounds_of_selects hselects (fun _ hr => hr) htidy rfl hstands
    obtain ⟨again, hrun, hagain⟩ := stage_iff.mpr ⟨cs, hrounds, hfiles⟩
    exact ⟨again, hrun, by rwa [hagain]⟩

/-- Staging time after time. -/
def restaged (l : PackageLayout) (root lib : Path) (s : Session) :
    Nat → Except StageError (List Path) × Session
  | 0 => (l.stage root lib).run s
  | n + 1 => (l.stage root lib).run (restaged l root lib s n).2

theorem stage_tidy {s s' : Session} (h : (l.stage root lib).run s = (.ok files, s'))
    (ht : s.files.IsTree) (htidy : s.files.Tidy) : s'.files.IsTree ∧ s'.files.Tidy := by
  obtain ⟨cs, hrounds, -⟩ := stage_ok h
  exact ⟨hrounds.copies.keepsTree ht, hrounds.copies.tidy htidy⟩

/-- What comes to nothing once comes to nothing every time. -/
theorem Repeats.restaged {s : Session} (h : Repeats l root lib s.files files)
    (ht : s.files.IsTree) (htidy : s.files.Tidy) (n : Nat) :
    (restaged l root lib s n).1 = .ok files ∧ (restaged l root lib s n).2.files.Tidy ∧
      SameFiles s.files (restaged l root lib s n).2.files := by
  induction n with
  | zero =>
    obtain ⟨again, hrun, hsame⟩ := (stage_still_iff ht htidy).mpr h
    rw [PackageLayout.restaged, hrun]
    exact ⟨rfl, (stage_tidy hrun ht htidy).2, hsame⟩
  | succ n ih =>
    obtain ⟨-, htidy', hsame⟩ := ih
    have ht' := hsame.isTree ht
    obtain ⟨again, hrun, hagain⟩ :=
      (stage_still_iff ht' htidy').mpr (h.of_sameFiles hsame htidy htidy')
    rw [PackageLayout.restaged, hrun]
    exact ⟨rfl, (stage_tidy hrun ht' htidy').2, hsame.trans hagain⟩

/-! ### Sources that are no targets -/

/-- The last copy to a place. -/
def lastTo (cs : List Copy) (x : Location) : Option Copy := cs.reverse.find? (·.place == x)

theorem lastTo_cons (c : Copy) (cs : List Copy) (x : Location) :
    lastTo (c :: cs) x = (lastTo cs x).or (if c.place = x then some c else none) := by
  rw [lastTo, List.reverse_cons, List.find?_append, lastTo, List.find?_singleton]
  simp

theorem lastTo_none {x : Location} (h : lastTo cs x = none) : ∀ c ∈ cs, c.place ≠ x := by
  intro c hc heq
  exact List.find?_eq_none.mp h c (List.mem_reverse.mpr hc) (by simpa using heq)

theorem lastTo_mem {x : Location} (h : lastTo cs x = some c) : c ∈ cs :=
  List.mem_reverse.mp (List.mem_of_find?_eq_some h)

theorem redo_lookup (hstands : ∀ c ∈ cs, c.Stands a)
    (hapart : ∀ c ∈ cs, ∀ c' ∈ cs, c'.place ≠ c.origin) (x : Location) :
    (redo a cs).lookup x = match lastTo cs x with
      | some c => a.lookup c.origin
      | none => a.lookup x := by
  induction cs generalizing a with
  | nil => rfl
  | cons c rest ih =>
    have hc := hstands c (List.mem_cons_self ..)
    obtain ⟨f, hf, hredo⟩ := hc.redo_eq
    obtain ⟨f', hf'⟩ := hc.taken
    have hroot : c.place ≠ [] := ne_root (by rw [hf']; simp)
    have hself : c.place ≠ c.origin := hapart c (List.mem_cons_self ..) c (List.mem_cons_self ..)
    have hnext : ∀ y, (c.redo a).lookup y =
        if y = c.place then a.lookup c.origin else a.lookup y := by
      intro y
      rw [hredo, lookup_put _ _ _ _ hroot, leaves, if_neg hself, (find_iff.mp hf).2]
    have hrest := ih (a := c.redo a)
      (fun c' hc' => (hstands c' (List.mem_cons_of_mem _ hc')).grows hc.redo_shape.grows)
      (fun c' hc' c'' hc'' => hapart c' (List.mem_cons_of_mem _ hc') c''
        (List.mem_cons_of_mem _ hc''))
    rw [redo, List.foldl_cons, ← redo, hrest, lastTo_cons]
    cases hlast : lastTo rest x with
    | some c' =>
      have horigin : c'.origin ≠ c.place := fun heq =>
        hapart c' (List.mem_cons_of_mem _ (lastTo_mem hlast)) c (List.mem_cons_self ..) heq.symm
      simp only [Option.some_or, hnext, if_neg horigin]
    | none =>
      by_cases hx : x = c.place
      · simp only [Option.none_or, hnext, if_pos hx, if_pos hx.symm]
      · simp only [Option.none_or, hnext, if_neg hx, if_neg (Ne.symm hx)]

/-- What a copy has put in its place, and what it took it from. -/
theorem Copy.Made.file (h : c.Made before after) (hself : c.place ≠ c.origin) :
    ∃ f, after.lookup c.place = some (.file f) ∧ after.lookup c.origin = some (.file f) := by
  obtain ⟨room, f, -, hfound, -, hfree, rfl⟩ := h
  refine ⟨f, ?_, ?_⟩
  · rw [lookup_put_self _ _ _ (ne_root hfree), leaves, if_neg hself]
  · rw [lookup_put_of_ne _ _ _ _ hself.symm, (find_iff.mp hfound).2]

theorem Copy.Made.kept (h : c.Made before after) {x : Location} {f : File}
    (hf : before.lookup x = some (.file f)) (hx : c.place ≠ x) : after.lookup x = some (.file f) := by
  obtain ⟨room, f', hroom, -, -, -, rfl⟩ := h
  obtain ⟨p, hmakes⟩ := makeRoom_makes before c.target
  rw [hroom] at hmakes
  rw [lookup_put_of_ne _ _ _ _ hx.symm]
  exact hmakes.kept.lookup x _ hf

theorem Copies.kept (h : Copies before cs after) {x : Location} {f : File}
    (hf : before.lookup x = some (.file f)) (hx : ∀ c ∈ cs, c.place ≠ x) :
    after.lookup x = some (.file f) := by
  induction h with
  | nil => exact hf
  | cons hmade _ ih =>
    exact ih (hmade.kept hf (hx _ (List.mem_cons_self ..)))
      fun c hc => hx c (List.mem_cons_of_mem _ hc)

/-- In the end there is at each target what is at the source that was last copied there. -/
theorem Copies.last (h : Copies before cs after)
    (hapart : ∀ c ∈ cs, ∀ c' ∈ cs, c'.place ≠ c.origin) {x : Location} (hlast : lastTo cs x = some c) :
    after.lookup x = after.lookup c.origin := by
  induction h with
  | nil => cases hlast
  | @cons first rest before between after hmade hrest ih =>
    rw [lastTo_cons] at hlast
    cases hlater : lastTo rest x with
    | some c' =>
      rw [hlater, Option.some_or] at hlast
      cases hlast
      exact ih (fun c hc c' hc' => hapart c (List.mem_cons_of_mem _ hc) c'
        (List.mem_cons_of_mem _ hc')) hlater
    | none =>
      rw [hlater, Option.none_or] at hlast
      split at hlast
      · next hplace =>
        cases hlast
        have hc : c ∈ c :: rest := List.mem_cons_self ..
        obtain ⟨f, hf, hf'⟩ := hmade.file (hapart c hc c hc)
        rw [hplace] at hf
        rw [hrest.kept hf (lastTo_none hlater), hrest.kept hf' fun c' hc' =>
          hapart c hc c' (List.mem_cons_of_mem _ hc')]
      · cases hlast

/-- What was copied could be copied again. -/
theorem Copy.Made.stands_after (h : c.Made before after) (ht : before.IsTree) : c.Stands after := by
  obtain ⟨room, f, hroom, hfound, hplace, hfree, rfl⟩ := h
  have hput := put_file_grows (makeRoom_keepsTree hroom ht) hplace hfree (leaves f c.origin c.place)
  refine ⟨fun above habove => (makeRoom_ok hroom above habove).imp_right fun hdirectory => ?_,
    hput.find_file hfound, hput.resolve hplace, _, lookup_put_self _ _ _ (ne_root hfree)⟩
  obtain ⟨place, hfound⟩ := isDirectory_iff.mp hdirectory
  exact isDirectory_iff.mpr ⟨place, hput.find_directory hfound⟩

theorem Copies.stands_after (h : Copies before cs after) (ht : before.IsTree) :
    ∀ c ∈ cs, c.Stands after := by
  induction h with
  | nil => exact fun c hc => absurd hc List.not_mem_nil
  | cons hmade hrest ih =>
    have htree := hmade.keepsTree ht
    intro c' hc'
    rcases List.mem_cons.mp hc' with rfl | hc'
    · exact (hmade.stands_after ht).grows (hrest.grows htree)
    · exact ih htree c' hc'

/-- Where no source is a target, copying it all again changes nothing. -/
theorem Copies.redo_same (h : Copies before cs after) (ht : before.IsTree)
    (hapart : ∀ c ∈ cs, ∀ c' ∈ cs, c'.place ≠ c.origin) : SameFiles after (redo after cs) := by
  have hstands := h.stands_after ht
  refine ⟨(redo_shape hstands).workingDirectory, fun x => ?_⟩
  rw [redo_lookup hstands hapart]
  cases hlast : lastTo cs x with
  | none => rfl
  | some c => exact (h.last hapart hlast).symm

/-- **When staging again changes nothing.** Packages were staged. If no source was a target as well,
and every round selects from what was left the files that it selected when its turn came, staging
once more ends well with the same answer and leaves every file as it is, however often it is done. In
general the next time does so exactly if nothing comes of it, which can be seen from the files that
the first time has left alone; and then it does so every time. -/
theorem stage_again_iff (l : PackageLayout) (root lib : Path) (files : List Path) (s s' : Session)
    (ht : s.files.IsTree) (htidy : s.files.Tidy)
    (h : (l.stage root lib).run s = (.ok files, s')) :
    ∃ cs, Rounds (l.rounds root lib) s.files cs s'.files ∧
      files = Path.sorted (cs.map Copy.target) ∧
      ((∀ c ∈ cs, ∀ c' ∈ cs, c'.place ≠ c.origin) →
        Selects s'.files (l.rounds root lib) (cs.map Copy.pair) →
        Repeats l root lib s'.files files ∧
          ∀ n, (restaged l root lib s' n).1 = .ok files ∧
            SameFiles s'.files (restaged l root lib s' n).2.files) ∧
      ((∃ again, (l.stage root lib).run s' = (.ok files, again) ∧
        SameFiles s'.files again.files) ↔ Repeats l root lib s'.files files) ∧
      (Repeats l root lib s'.files files → ∀ n, (restaged l root lib s' n).1 = .ok files ∧
        SameFiles s'.files (restaged l root lib s' n).2.files) := by
  obtain ⟨ht', htidy'⟩ := stage_tidy h ht htidy
  obtain ⟨cs, hrounds, hfiles⟩ := stage_ok h
  have hagain : Repeats l root lib s'.files files → ∀ n, (restaged l root lib s' n).1 = .ok files ∧
      SameFiles s'.files (restaged l root lib s' n).2.files := by
    intro hrepeats n
    obtain ⟨hanswer, -, hsame⟩ := hrepeats.restaged ht' htidy' n
    exact ⟨hanswer, hsame⟩
  refine ⟨cs, hrounds, hfiles, fun hapart hselects => ?_, stage_still_iff ht' htidy', hagain⟩
  have hrepeats : Repeats l root lib s'.files files :=
    ⟨cs, hselects, hrounds.copies.stands_after ht, hfiles, hrounds.copies.redo_same ht hapart⟩
  exact ⟨hrepeats, hagain hrepeats⟩

/-! ### Small packages -/

/-- A package with one module. -/
def asideFiles : FileSystem where
  entries :=
    [(["p"], .directory), (["p", "pkg"], .directory),
      (["p", "pkg", "a.py"], .file ⟨.data ⟨#[120]⟩, false⟩)]
  workingDirectory := ["p"]

def asideStaging (n : Nat) : Except StageError (List Path) × Session :=
  restaged ⟨["pkg"], [], []⟩ ⟨"/p"⟩ ⟨"/p/build/lib"⟩ (.ofFiles asideFiles) n

theorem asideStaging_ok : (asideStaging 0).1 = .ok [⟨"/p/build/lib/pkg/a.py"⟩] := by
  decide +kernel

theorem asideStaging_outcome :
    (stage ⟨["pkg"], [], []⟩ ⟨"/p"⟩ ⟨"/p/build/lib"⟩).run (.ofFiles asideFiles) =
      (.ok [⟨"/p/build/lib/pkg/a.py"⟩], (asideStaging 0).2) := by
  show asideStaging 0 = _
  rw [← asideStaging_ok]

/-- The one round of the package. -/
theorem aside_rounds : rounds ⟨["pkg"], [], []⟩ ⟨"/p"⟩ ⟨"/p/build/lib"⟩ =
    [moduleRound ⟨"/p/pkg"⟩ ⟨"/p/build/lib/pkg"⟩] := by
  have hsource : (Path.mk "/p").join (sourceDir ⟨["pkg"], [], []⟩ "pkg") = ⟨"/p/pkg"⟩ := by
    decide +kernel
  have hdest : destination ⟨"/p/build/lib"⟩ "pkg" = ⟨"/p/build/lib/pkg"⟩ := by decide +kernel
  rw [rounds, List.flatMap_singleton, packageRounds, hsource, hdest]
  rfl

/-- The one copy that staging makes. -/
def asideCopy : Copy :=
  ⟨⟨"/p/pkg/a.py"⟩, ⟨"/p/build/lib/pkg/a.py"⟩, ["p", "pkg", "a.py"],
    ["p", "build", "lib", "pkg", "a.py"]⟩

theorem aside_pair :
    (moduleRound ⟨"/p/pkg"⟩ ⟨"/p/build/lib/pkg"⟩).pair asideCopy.source = asideCopy.pair := by
  decide +kernel

theorem aside_copies {cs : List Copy} {after : FileSystem}
    (h : Rounds [moduleRound ⟨"/p/pkg"⟩ ⟨"/p/build/lib/pkg"⟩] asideFiles cs after) :
    cs = [asideCopy] := by
  have hmodules : modulesIn asideFiles ⟨"/p/pkg"⟩ = .ok [asideCopy.source] := by decide +kernel
  have hfound : (makeRoom asideFiles asideCopy.target).2.find asideCopy.source .followed =
      .ok (asideCopy.origin, .file ⟨.data ⟨#[120]⟩, false⟩) := by decide +kernel
  have hplace : (makeRoom asideFiles asideCopy.target).2.resolve asideCopy.target .written =
      .ok asideCopy.place := by decide +kernel
  obtain _ | @⟨_, _, _, between, _, files, made, more, hselect, hpairs, hcopies, hrest⟩ := h
  cases hrest
  obtain rfl : [asideCopy.source] = files := Except.ok.inj (hmodules.symm.trans hselect)
  obtain ⟨⟨source, target, origin, place⟩, rfl, hpair⟩ := List.map_eq_singleton_iff.mp hpairs
  obtain ⟨rfl, rfl⟩ := Prod.mk.inj (hpair.trans aside_pair)
  cases hcopies with
  | cons hmade _ =>
    obtain ⟨room, f, hroom, hfound', hplace', -, -⟩ := hmade
    rw [hroom] at hfound hplace
    obtain ⟨rfl, -⟩ := Prod.mk.inj (Except.ok.inj (hfound.symm.trans hfound'))
    obtain rfl := Except.ok.inj (hplace.symm.trans hplace')
    rfl

/-- Staged next to itself, a package can be staged again. -/
theorem asideStaging_again_iff :
    Repeats ⟨["pkg"], [], []⟩ ⟨"/p"⟩ ⟨"/p/build/lib"⟩ (asideStaging 0).2.files
        [⟨"/p/build/lib/pkg/a.py"⟩] ∧
      ∀ n, (restaged ⟨["pkg"], [], []⟩ ⟨"/p"⟩ ⟨"/p/build/lib"⟩ (asideStaging 0).2 n).1 =
          .ok [⟨"/p/build/lib/pkg/a.py"⟩] ∧
        SameFiles (asideStaging 0).2.files
          (restaged ⟨["pkg"], [], []⟩ ⟨"/p"⟩ ⟨"/p/build/lib"⟩ (asideStaging 0).2 n).2.files := by
  obtain ⟨cs, hrounds, -, hagain, -⟩ :=
    stage_again_iff ⟨["pkg"], [], []⟩ ⟨"/p"⟩ ⟨"/p/build/lib"⟩ [⟨"/p/build/lib/pkg/a.py"⟩]
      (.ofFiles asideFiles) (asideStaging 0).2 (isTree_of_entries (by decide) (by decide))
      ⟨by decide, by decide, by decide⟩ asideStaging_outcome
  rw [aside_rounds] at hrounds hagain
  obtain rfl := aside_copies hrounds
  refine hagain (fun c hc c' hc' => ?_) ?_
  · rw [List.mem_singleton.mp hc, List.mem_singleton.mp hc']
    decide
  · have hmodules : modulesIn (asideStaging 0).2.files ⟨"/p/pkg"⟩ = .ok [asideCopy.source] := by
      decide +kernel
    rw [← select_moduleRound _ ⟨"/p/build/lib/pkg"⟩] at hmodules
    rw [List.map_singleton, ← aside_pair]
    exact .cons hmodules .nil

/-- A package with a data file, and nothing next to it. -/
def nestedFiles : FileSystem where
  entries :=
    [(["p"], .directory), (["p", "d"], .directory),
      (["p", "d", "a.txt"], .file ⟨.data ⟨#[120]⟩, false⟩)]
  workingDirectory := ["p"]

/-- The project is the package, and one of its patterns looks where it is staged. -/
def nestedLayout : PackageLayout :=
  ⟨["pkg"], [("pkg", ⟨"."⟩)], [("pkg", ["d/lib/**/*.txt", "d/a.txt"])]⟩

def nestedStaging (n : Nat) : Except StageError (List Path) × Session :=
  restaged nestedLayout ⟨"/p"⟩ ⟨"/p/d/lib"⟩ (.ofFiles nestedFiles) n

/-- The second time what was staged the first time is staged as well. -/
theorem staging_again_grows :
    (nestedStaging 0).1 = .ok [⟨"/p/d/lib/pkg/d/a.txt"⟩] ∧
      (nestedStaging 0).2.files.lookup ["p", "d", "lib", "pkg", "d", "lib"] = none ∧
      (nestedStaging 1).2.files.bytesOf ⟨"/p/d/lib/pkg/d/lib/pkg/d/a.txt"⟩ = some ⟨#[120]⟩ := by
  refine ⟨by decide +kernel, by decide +kernel, by decide +kernel⟩

end StableWheel.PackageLayout
