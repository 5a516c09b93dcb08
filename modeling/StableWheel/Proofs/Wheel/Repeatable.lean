import StableWheel.Proofs.Text.Bytewise
import StableWheel.Proofs.Wheel.Alike

/-! What a wheel owes to the files of its tree.

The files of a tree are come upon one by one, a path before another one if it is so component by
component and byte by byte (`Precedes`). What was come upon (`Sees`) tells the whole archive, so two
walks that saw the same, in trees anywhere, were packed into the same members (`packed_alike`). -/
namespace StableWheel
open FileSystem

/-! ### The order of paths -/

/-- At the first component that is not the same the bytes are lower, or there is none any more. -/
def Precedes : Location → Location → Prop := List.Lex fun a b => Text.bytes a < Text.bytes b

theorem precedes_iff {a b : Location} : Precedes a b ↔ compare a b = .lt := by
  induction a generalizing b with
  | nil =>
    cases b with
    | nil => exact ⟨(nomatch ·), (nomatch ·)⟩
    | cons y ys => exact ⟨fun _ => rfl, fun _ => .nil⟩
  | cons x xs ih =>
    cases b with
    | nil => exact ⟨(nomatch ·), (nomatch ·)⟩
    | cons y ys =>
      rw [List.compare_cons_cons, Ordering.then_eq_lt, compare_lt_iff_lt,
        Std.LawfulEqCmp.compare_eq_iff_eq, ← ih, ← Text.bytes_lt_iff, Precedes,
        List.cons_lex_cons_iff]

/-- The order of the joined names is another one. -/
example : Precedes ["a", "x"] ["a-b", "x"] ∧
    Text.join "/" ["a-b", "x"] < Text.join "/" ["a", "x"] :=
  ⟨precedes_iff.mpr (by decide), by decide⟩

theorem Precedes.asymm {a b : Location} (h : Precedes a b) : ¬ Precedes b a := by
  rw [precedes_iff] at h ⊢
  have hswap : compare b a = (compare a b).swap := Std.OrientedCmp.eq_swap
  rw [hswap, h]
  exact nofun

theorem precedes_of_rising {list : List Location}
    (h : list.Pairwise fun a b => (compare a b).isLE) (hnodup : list.Nodup) :
    list.Pairwise Precedes := by
  refine h.imp₂ (fun a b hle hne => ?_) hnodup
  rw [precedes_iff]
  cases hcmp : compare a b with
  | lt => rfl
  | eq => exact absurd (Std.LawfulEqCmp.eq_of_compare hcmp) hne
  | gt => rw [hcmp] at hle; cases hle

/-! ### What a walk sees -/

/-- The files that were come upon below a place, by the names that lead to them, with the bytes that
were read: all that are there, each once and in rising order. Only of one place is it left open what
was read there. -/
structure Sees (fs : FileSystem) (but tree : Location) (seen : List (Location × ByteArray)) :
    Prop where
  rising : seen.Pairwise fun x y => Precedes x.1 y.1
  all : ∀ names, (∃ bytes, (names, bytes) ∈ seen) ↔ (fs.bytesAt (tree ++ names)).isSome
  bytes : ∀ x ∈ seen, tree ++ x.1 ≠ but → fs.bytesAt (tree ++ x.1) = some x.2

/-- The member that a file becomes. -/
def memberFor (x : Location × ByteArray) : Archive.Member := wheelMember (Text.join "/" x.1) x.2

/-- Members tell what was read, and where. -/
theorem seen_of_taken {fs : FileSystem} {but tree : Location} {list : List Location}
    {staged : List Archive.Member} (h : List.Forall₂ (Taken fs but tree) list staged) :
    ∃ seen : List (Location × ByteArray), seen.map Prod.fst = list ∧ seen.map memberFor = staged ∧
      ∀ x ∈ seen, tree ++ x.1 ≠ but → fs.bytesAt (tree ++ x.1) = some x.2 := by
  induction h with
  | nil => exact ⟨[], rfl, rfl, by simp⟩
  | @cons names m rest staged hm _ ih =>
    obtain ⟨seen, rfl, rfl, hbytes⟩ := ih
    refine ⟨(names, m.content) :: seen, rfl, ?_, ?_⟩
    · rw [List.map_cons, memberFor, ← hm.name, ← hm.made]
    · rintro x (_ | ⟨_, hx⟩)
      · exact hm.content
      · exact hbytes x hx

theorem sees_of_taken {fs : FileSystem} {but tree : Location} {staged : List Archive.Member}
    (h : List.Forall₂ (Taken fs but tree) (fs.filesBelow tree) staged)
    (hnodup : (staged.map (·.name)).Nodup) (hbut : (fs.bytesAt but).isSome) :
    ∃ seen, staged = seen.map memberFor ∧ Sees fs but tree seen := by
  obtain ⟨seen, hnames, hstaged, hbytes⟩ := seen_of_taken h
  refine ⟨seen, hstaged.symm, ⟨?_, fun names => ?_, hbytes⟩⟩
  · rw [← List.pairwise_map (f := Prod.fst), hnames]
    rw [taken_names h] at hnodup
    exact precedes_of_rising (filesBelow_rising fs tree) (List.Nodup.of_map _ hnodup)
  · constructor
    · rintro ⟨bytes, hmem⟩
      by_cases heq : tree ++ names = but
      · rwa [heq]
      · rw [hbytes _ hmem heq]
        rfl
    · intro hsome
      obtain ⟨bytes, hfile⟩ := Option.isSome_iff_exists.mp hsome
      have hmem := mem_filesBelow hfile
      rw [← hnames] at hmem
      obtain ⟨x, hx, rfl⟩ := List.mem_map.mp hmem
      exact ⟨x.2, hx⟩

/-- Rising lists of the same files are the same list. -/
theorem eq_of_same_seen {seen seen' : List (Location × ByteArray)}
    (h : seen.Pairwise fun x y => Precedes x.1 y.1) (h' : seen'.Pairwise fun x y => Precedes x.1 y.1)
    (hsame : ∀ x, x ∈ seen ↔ x ∈ seen') : seen = seen' := by
  have hnodup : ∀ {list : List (Location × ByteArray)},
      list.Pairwise (fun x y => Precedes x.1 y.1) → list.Nodup := fun hlist =>
    hlist.imp fun hlt heq => by subst heq; exact hlt.asymm hlt
  exact ((List.perm_ext_iff_of_nodup (hnodup h) (hnodup h')).mpr hsame).eq_of_pairwise
    (fun _ _ _ _ hlt hgt => absurd hgt hlt.asymm) h h'

/-! ### Packing -/

/-- What a wheel was packed from and what it holds. When only the temporary file of the wheel was
new, these files were come upon below the staged directory, one after the other; the members are the
files in that order and then the metadata, the file that describes the wheel and the list of all
files. -/
structure Wheel.Walked (w : Wheel) (staging dist wheel : Path) (before after : FileSystem)
    (seen : List (Location × ByteArray)) (members : List Archive.Member) : Prop where
  begun : ∃ room name started tree, Packing.Begun before dist room name started ∧
    started.files.treeAt staging = .ok tree ∧ (tree = none → seen = []) ∧
    ∀ place, tree = some place → Sees started.files (room ++ [name]) place seen
  rising : seen.Pairwise fun x y => Precedes x.1 y.1
  ordered : members = seen.map memberFor ++
    [wheelMember w.metadataName w.metadata.toUTF8, wheelMember w.wheelFileName w.wheelFile.toUTF8,
      w.listing (seen.map memberFor ++ w.description)]
  written : Wheel.Written dist wheel before after members

/-- Where the wheel is made outside the tree, just the files that the tree held were come upon. -/
theorem Wheel.Walked.mem_seen_iff {w : Wheel} {staging dist wheel : Path}
    {before after : FileSystem} {seen : List (Location × ByteArray)}
    {members : List Archive.Member} {tree room : Location}
    (h : w.Walked staging dist wheel before after seen members)
    (htree : before.find staging .followed = .ok (tree, .directory))
    (hroom : (before.createDirectories dist).2.resolve dist .followed = .ok room)
    (hapart : ¬ tree <+: room) (x : Location × ByteArray) :
    x ∈ seen ↔ before.bytesAt (tree ++ x.1) = some x.2 := by
  obtain ⟨room', name, started, place, hbegun, hat, -, hsees⟩ := h.begun
  obtain rfl : room = room' := Except.ok.inj (hroom.symm.trans hbegun.leads)
  have hplace : some tree = place :=
    Except.ok.inj ((treeAt_within hbegun.within (treeAt_of_directory htree)).symm.trans hat)
  have hseen := hsees tree hplace.symm
  have hother := hbegun.ne_of_apart (find_iff.mp htree).2 hapart
  constructor
  · intro hx
    rw [← hbegun.bytesAt (hother x.1)]
    exact hseen.bytes x hx (hother x.1)
  · intro hx
    obtain ⟨bytes, hmem⟩ := (hseen.all x.1).mpr (by rw [hbegun.bytesAt (hother x.1), hx]; rfl)
    have hbytes := hseen.bytes _ hmem (hother x.1)
    rw [hbegun.bytesAt (hother x.1), hx] at hbytes
    cases hbytes
    exact hmem

/-- Of a tree with one file only that file was come upon. -/
theorem Wheel.Walked.seen_of_one {w : Wheel} {staging dist wheel : Path}
    {before after : FileSystem} {seen : List (Location × ByteArray)}
    {members : List Archive.Member} {tree room names : Location} {bytes : ByteArray}
    (h : w.Walked staging dist wheel before after seen members)
    (htree : before.find staging .followed = .ok (tree, .directory))
    (hroom : (before.createDirectories dist).2.resolve dist .followed = .ok room)
    (hapart : ¬ tree <+: room) (hone : before.filesBelow tree = [names])
    (hbytes : before.bytesAt (tree ++ names) = some bytes) : seen = [(names, bytes)] := by
  refine eq_of_same_seen h.rising (List.pairwise_singleton _ _) fun x => ?_
  rw [h.mem_seen_iff htree hroom hapart, List.mem_singleton]
  constructor
  · intro hx
    have hnames := mem_filesBelow hx
    rw [hone, List.mem_singleton] at hnames
    rw [hnames, hbytes] at hx
    exact Prod.ext hnames (Option.some.inj hx).symm
  · rintro rfl
    exact hbytes

theorem Wheel.pack_walked {w : Wheel} {staging dist wheel : Path} {s s' : Session}
    (h : (w.pack staging dist).run s = (.ok wheel, s')) :
    ∃ seen members, w.Walked staging dist wheel s.files s'.files seen members := by
  obtain ⟨room, name, started, tree, staged, hbegun, hwritten, htree, hnodup, hnone, htaken⟩ :=
    Wheel.pack_written h
  have hstaged : (staged.map (·.name)).Nodup := by
    rw [List.map_append, List.map_append, List.nodup_append, List.nodup_append] at hnodup
    exact hnodup.1.1
  have htemporary : (started.files.bytesAt (room ++ [name])).isSome := by
    rw [hbegun.files, bytesAt_put _ _ _ (by simp), if_pos rfl]
    rfl
  have hordered : ∀ seen : List (Location × ByteArray), staged = seen.map memberFor →
      staged ++ w.description ++ [w.listing (staged ++ w.description)] = seen.map memberFor ++
        [wheelMember w.metadataName w.metadata.toUTF8,
          wheelMember w.wheelFileName w.wheelFile.toUTF8,
          w.listing (seen.map memberFor ++ w.description)] := by
    rintro seen rfl
    rw [List.append_assoc]
    rfl
  cases tree with
  | none =>
    exact ⟨[], _, ⟨room, name, started, none, hbegun, htree, fun _ => rfl, nofun⟩, .nil,
      hordered [] (hnone rfl), hwritten⟩
  | some place =>
    obtain ⟨seen, hseen, hsees⟩ := sees_of_taken (htaken place rfl) hstaged htemporary
    refine ⟨seen, _, ⟨room, name, started, some place, hbegun, htree, nofun, ?_⟩, hsees.rising,
      hordered seen hseen, hwritten⟩
    intro place' hplace
    cases hplace
    exact hsees

/-- **The same files make the same wheel.** Whatever two wheels of one kind are packed from and
wherever they go, each holds the files that were come upon, in rising order of their paths, before
the three files that describe it. If the same names and the same bytes were come upon, in whatever
order the directories list them, the archives are the same: member by member the name, the
permissions and the contents, and so the list of all files. -/
theorem packed_alike (w : Wheel) (staging dist wheel staging' dist' wheel' : Path)
    (s after s' after' : Session) (h : (w.pack staging dist).run s = (.ok wheel, after))
    (h' : (w.pack staging' dist').run s' = (.ok wheel', after')) :
    ∃ seen members seen' members',
      w.Walked staging dist wheel s.files after.files seen members ∧
      w.Walked staging' dist' wheel' s'.files after'.files seen' members' ∧
      ((∀ x, x ∈ seen ↔ x ∈ seen') → members = members') := by
  obtain ⟨seen, members, hwalked⟩ := Wheel.pack_walked h
  obtain ⟨seen', members', hwalked'⟩ := Wheel.pack_walked h'
  refine ⟨seen, members, seen', members', hwalked, hwalked', fun hsame => ?_⟩
  rw [hwalked.ordered, hwalked'.ordered, eq_of_same_seen hwalked.rising hwalked'.rising hsame]

/-- The small tree elsewhere, with other permissions and next to other files. -/
def movedFiles : FileSystem where
  entries :=
    [(["q", "out", "a.py"], .file ⟨.data ⟨#[49]⟩, true⟩),
      (["q", "b.py"], .file ⟨.data ⟨#[50]⟩, false⟩), (["q", "out"], .directory),
      (["q"], .directory)]
  workingDirectory := []

def movedPacking : Except WheelError Path × Session :=
  (demoWheel.pack ⟨"q/out"⟩ ⟨"/q/dist"⟩).run (.ofFiles movedFiles)

theorem movedPacking_ok : movedPacking.1 = .ok ⟨"/q/dist/demo-1.0-py3-none-any.whl"⟩ := by
  decide +kernel

theorem movedPacking_outcome : (demoWheel.pack ⟨"q/out"⟩ ⟨"/q/dist"⟩).run (.ofFiles movedFiles) =
    (.ok ⟨"/q/dist/demo-1.0-py3-none-any.whl"⟩, movedPacking.2) := by
  show movedPacking = _
  rw [← movedPacking_ok]

/-- The same file is come upon in both trees, and the archives are the same. -/
theorem moved_packed_alike :
    ∃ members,
      demoWheel.Walked ⟨"lib"⟩ ⟨"dist"⟩ ⟨"dist/demo-1.0-py3-none-any.whl"⟩ demoFiles
        (demoPacking "lib" "dist").2.files [(["a.py"], ⟨#[49]⟩)] members ∧
      demoWheel.Walked ⟨"q/out"⟩ ⟨"/q/dist"⟩ ⟨"/q/dist/demo-1.0-py3-none-any.whl"⟩ movedFiles
        movedPacking.2.files [(["a.py"], ⟨#[49]⟩)] members := by
  obtain ⟨seen, members, seen', members', hwalked, hwalked', hsame⟩ :=
    packed_alike demoWheel ⟨"lib"⟩ ⟨"dist"⟩ ⟨"dist/demo-1.0-py3-none-any.whl"⟩ ⟨"q/out"⟩ ⟨"/q/dist"⟩
      ⟨"/q/dist/demo-1.0-py3-none-any.whl"⟩ (.ofFiles demoFiles) (demoPacking "lib" "dist").2
      (.ofFiles movedFiles) movedPacking.2 demoPacking_outcome movedPacking_outcome
  have htree : demoFiles.find ⟨"lib"⟩ .followed = .ok (["p", "lib"], .directory) := by
    decide +kernel
  have hroom : (demoFiles.createDirectories ⟨"dist"⟩).2.resolve ⟨"dist"⟩ .followed =
      .ok ["p", "dist"] := by decide +kernel
  have htree' : movedFiles.find ⟨"q/out"⟩ .followed = .ok (["q", "out"], .directory) := by
    decide +kernel
  have hroom' : (movedFiles.createDirectories ⟨"/q/dist"⟩).2.resolve ⟨"/q/dist"⟩ .followed =
      .ok ["q", "dist"] := by decide +kernel
  have hseen : seen = [(["a.py"], ⟨#[49]⟩)] :=
    hwalked.seen_of_one htree hroom (by decide) (by decide +kernel) (by decide +kernel)
  have hseen' : seen' = [(["a.py"], ⟨#[49]⟩)] :=
    hwalked'.seen_of_one htree' hroom' (by decide) (by decide +kernel) (by decide +kernel)
  subst hseen hseen'
  obtain rfl := hsame fun _ => Iff.rfl
  exact ⟨members, hwalked, hwalked'⟩

end StableWheel
