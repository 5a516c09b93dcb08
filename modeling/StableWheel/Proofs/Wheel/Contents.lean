import Mathlib.Data.List.Infix
import StableWheel.Proofs.Wheel.Gathering

/-! What is packed, and what was there to be packed.

The temporary file is there before the tree is gone through. Where the wheel is made outside the
tree, the staged members are exactly the files that the tree held (`exact_of_apart`); where it is
made inside, the temporary file is come upon like any other (`not_exact_of_inside`). A file that
stands for a tree is packed as well, by an empty name (`not_exact_of_file`). `pack_exact_iff` puts
these together. -/
namespace StableWheel

/-! ### The tree -/

namespace FileSystem
variable {fs : FileSystem}

/-- A path that leads to a directory, over a link at its end or not, names its tree. -/
theorem treeAt_of_directory {p : Path} {tree : Location}
    (h : fs.find p .followed = .ok (tree, .directory)) : fs.treeAt p = .ok (some tree) := by
  unfold treeAt
  rcases find_kept_or_link h with hk | ⟨link, target, hk⟩
  · rw [hk]
    rfl
  · rw [hk]
    show (fs.find p .followed >>= _) = _
    rw [h]
    rfl

/-- The path of a file names a tree that is the file alone. -/
theorem treeAt_of_file {p : Path} {place : Location} {f : File}
    (h : fs.find p .kept = .ok (place, .file f)) : fs.treeAt p = .ok (some place) := by
  unfold treeAt
  rw [h]
  rfl

end FileSystem

open FileSystem

/-! ### Exactly the files -/

/-- The names lead from the directory that a path leads to, over no link, to a file with these
bytes. -/
def Under (fs : FileSystem) (staging : Path) (names : Location) (bytes : ByteArray) : Prop :=
  ∃ tree, fs.find staging .followed = .ok (tree, .directory) ∧
    fs.bytesAt (tree ++ names) = some bytes

/-- The members are the files under a path, each one once, by its names and with its bytes. -/
structure PacksExactly (fs : FileSystem) (staging : Path) (staged : List Archive.Member) :
    Prop where
  member : ∀ m ∈ staged, ∃ names, Under fs staging names m.content ∧ m.name = Text.join "/" names
  file : ∀ names bytes, Under fs staging names bytes → Holds staged (Text.join "/" names) bytes

theorem under_iff {fs : FileSystem} {staging : Path} {tree names : Location} {bytes : ByteArray}
    (h : fs.find staging .followed = .ok (tree, .directory)) :
    Under fs staging names bytes ↔ fs.bytesAt (tree ++ names) = some bytes := by
  constructor
  · rintro ⟨tree', hfound, hb⟩
    rw [h] at hfound
    cases hfound
    exact hb
  · exact fun hb => ⟨tree, h, hb⟩

/-- What stands in one list has its counterpart in the other. -/
theorem exists_beside {α β : Type} {R : α → β → Prop} {as : List α} {bs : List β}
    (h : List.Forall₂ R as bs) {a : α} (ha : a ∈ as) : ∃ b ∈ bs, R a b := by
  induction h with
  | nil => cases ha
  | @cons first b rest others hb _ ih =>
    rcases List.mem_cons.mp ha with rfl | ha
    · exact ⟨b, List.mem_cons_self .., hb⟩
    · obtain ⟨b', hb', hR⟩ := ih ha
      exact ⟨b', List.mem_cons_of_mem b hb', hR⟩

theorem taken_names {fs : FileSystem} {but tree : Location} {list : List Location}
    {staged : List Archive.Member} (h : List.Forall₂ (Taken fs but tree) list staged) :
    staged.map (·.name) = list.map (Text.join "/") := by
  induction h with
  | nil => rfl
  | cons hm _ ih => rw [List.map_cons, List.map_cons, hm.name, ih]

namespace Packing

section
variable {fs : FileSystem} {dist : Path} {room : Location} {name : String} {started : Session}
  (h : Begun fs dist room name started)
include h

theorem Begun.within : Within fs started.files := by
  rw [h.files]
  exact (createDirectories_makes fs dist).kept.trans (put_within h.fresh _)

theorem Begun.bytesAt {place : Location} (hother : place ≠ room ++ [name]) :
    started.files.bytesAt place = fs.bytesAt place := by
  rw [h.files, bytesAt_put _ _ _ (by simp), if_neg hother, createDirectories_bytesAt]

/-- Where the temporary file is, there was no file. -/
theorem Begun.not_file {b : ByteArray} : fs.bytesAt (room ++ [name]) ≠ some b := by
  intro hb
  rw [← createDirectories_bytesAt fs dist, FileSystem.bytesAt, h.fresh] at hb
  cases hb

/-- A directory that was there is above the temporary file just if it is the directory of that
file or above it. -/
theorem Begun.above_iff {tree : Location} (htree : fs.lookup tree = some .directory) :
    tree <+: room ++ [name] ↔ tree <+: room := by
  rw [List.prefix_concat_iff, or_iff_right]
  rintro rfl
  have hmade := (createDirectories_makes fs dist).kept.lookup _ _ htree
  rw [h.fresh] at hmade
  cases hmade

/-- Nothing below a directory that is not above the temporary file is that file. -/
theorem Begun.ne_of_apart {tree : Location} (htree : fs.lookup tree = some .directory)
    (hapart : ¬ tree <+: room) (names : Location) : tree ++ names ≠ room ++ [name] :=
  fun heq => hapart ((h.above_iff htree).mp ⟨names, heq⟩)

/-- A file that is packed as a tree of its own lay under no directory. -/
theorem Begun.not_exact_of_file {staging : Path} {place : Location} {f : File}
    {staged : List Archive.Member} (hfile : fs.find staging .kept = .ok (place, .file f))
    (htaken : List.Forall₂ (Taken started.files (room ++ [name]) place)
      (started.files.filesBelow place) staged) : ¬ PacksExactly fs staging staged := by
  intro hexact
  have hitself : [] ∈ started.files.filesBelow place := by
    refine mem_filesBelow (b := f.content.bytes) ?_
    rw [List.append_nil]
    exact bytesAt_within h.within (bytesAt_file (find_iff.mp hfile).2)
  obtain ⟨m, hm, -⟩ := exists_beside htaken hitself
  obtain ⟨names, ⟨tree, htree, -⟩, -⟩ := hexact.member m hm
  rcases find_kept_or_link htree with hk | ⟨link, target, hk⟩
  · rw [hfile] at hk
    cases hk
  · rw [hfile] at hk
    cases hk

variable {staging : Path} {tree : Location}
  (htree : fs.find staging .followed = .ok (tree, .directory))
include htree

/-- Every file that was there is come upon. -/
theorem Begun.come_upon {names : Location} {bytes : ByteArray}
    (hunder : Under fs staging names bytes) : names ∈ started.files.filesBelow tree :=
  mem_filesBelow (bytesAt_within h.within ((under_iff htree).mp hunder))

variable {staged : List Archive.Member}
  (htaken : List.Forall₂ (Taken started.files (room ++ [name]) tree)
    (started.files.filesBelow tree) staged)
  (hnodup : (staged.map (·.name)).Nodup)
include htaken hnodup

theorem Begun.exact_of_apart (hapart : ¬ tree <+: room) : PacksExactly fs staging staged := by
  have hcontent : ∀ {names m}, Taken started.files (room ++ [name]) tree names m →
      Under fs staging names m.content := by
    intro names m hm
    have hother := h.ne_of_apart (find_iff.mp htree).2 hapart names
    rw [under_iff htree, ← h.bytesAt hother]
    exact hm.content hother
  constructor
  · intro m hm
    have hback : List.Forall₂ (flip (Taken started.files (room ++ [name]) tree)) staged
        (started.files.filesBelow tree) := .flip htaken
    obtain ⟨names, -, hnames⟩ := exists_beside hback hm
    exact ⟨names, hcontent hnames, hnames.name⟩
  · intro names bytes hunder
    obtain ⟨m, hm, hnames⟩ := exists_beside htaken (h.come_upon htree hunder)
    have hbytes := (under_iff htree).mp hunder
    rw [(under_iff htree).mp (hcontent hnames)] at hbytes
    refine ⟨m, hm, hnames.name, Option.some.inj hbytes, fun m' hm' hname => ?_⟩
    exact List.inj_on_of_nodup_map hnodup hm' hm (hname.trans hnames.name.symm)

/-- The temporary file is packed by names that lead to no file that was there. -/
theorem Begun.not_exact_of_inside (hinside : tree <+: room) : ¬ PacksExactly fs staging staged := by
  intro hexact
  obtain ⟨names, hnames⟩ := (h.above_iff (find_iff.mp htree).2).mpr hinside
  have htemporary : names ∈ started.files.filesBelow tree := by
    refine mem_filesBelow (b := (archiveFile []).content.bytes) (bytesAt_file ?_)
    rw [hnames, h.files, lookup_put_self _ _ _ (by simp)]
  obtain ⟨m, hm, htaken'⟩ := exists_beside htaken htemporary
  obtain ⟨names', hunder, hname⟩ := hexact.member m hm
  -- two names for one member would be two members of one name
  have hsame : names = names' := by
    rw [taken_names htaken] at hnodup
    exact List.inj_on_of_nodup_map hnodup htemporary (h.come_upon htree hunder)
      (htaken'.name.symm.trans hname)
  rw [under_iff htree, ← hsame, hnames] at hunder
  exact h.not_file hunder

end

end Packing

/-- **Exactly when a wheel holds the files of its tree and no others.** Of all that is packed, what
comes before the description of the wheel is exactly the files that lay under the staged directory
before, if and only if the wheel is not made in that directory or inside it: otherwise the
temporary file of the wheel is packed as well. Where there was no directory to be staged, it is
only right to pack nothing, and a file in its place is packed all the same. -/
theorem pack_exact_iff (w : Wheel) (staging dist wheel : Path) (s s' : Session)
    (h : (w.pack staging dist).run s = (.ok wheel, s')) :
    ∃ room staged, (s.files.createDirectories dist).2.resolve dist .followed = .ok room ∧
      Wheel.Written dist wheel s.files s'.files
        (staged ++ w.description ++ [w.listing (staged ++ w.description)]) ∧
      (∀ tree, s.files.find staging .followed = .ok (tree, .directory) →
        (PacksExactly s.files staging staged ↔ ¬ tree <+: room)) ∧
      ((∀ tree, s.files.find staging .followed ≠ .ok (tree, .directory)) →
        (PacksExactly s.files staging staged ↔ staged = [])) ∧
      ∀ place f, s.files.find staging .kept = .ok (place, .file f) →
        ¬ PacksExactly s.files staging staged := by
  obtain ⟨room, name, started, found, staged, hbegun, hwritten, hfound, hnodup, -, htaken⟩ :=
    Wheel.pack_written h
  rw [List.map_append, List.map_append] at hnodup
  have hstaged : (staged.map (·.name)).Nodup :=
    (List.nodup_append.mp (List.nodup_append.mp hnodup).1).1
  refine ⟨room, staged, hbegun.leads, hwritten, fun tree htree => ?directory,
    fun hnone => ?nothing, fun place f hfile => ?file⟩
  case directory =>
    have hat := treeAt_within hbegun.within (treeAt_of_directory htree)
    rw [hfound] at hat
    cases hat
    have hall := htaken tree rfl
    exact ⟨fun hexact hinside => hbegun.not_exact_of_inside htree hall hstaged hinside hexact,
      hbegun.exact_of_apart htree hall hstaged⟩
  case nothing =>
    have hempty : ∀ names bytes, ¬ Under s.files staging names bytes :=
      fun _ _ ⟨tree, htree, _⟩ => hnone tree htree
    constructor
    · intro hexact
      refine List.eq_nil_iff_forall_not_mem.mpr fun m hm => ?_
      obtain ⟨names, hunder, -⟩ := hexact.member m hm
      exact hempty names _ hunder
    · rintro rfl
      exact ⟨fun m hm => (List.not_mem_nil hm).elim,
        fun names bytes hunder => absurd hunder (hempty names bytes)⟩
  case file =>
    have hat := treeAt_within hbegun.within (treeAt_of_file hfile)
    rw [hfound] at hat
    cases hat
    exact hbegun.not_exact_of_file hfile (htaken place rfl)

/-- A wheel that is made in the directory it is packed from holds its own temporary file, and one
that is packed from a file holds that file without a name. -/
theorem more_than_tree_packed :
    (demoPacking "none" "none").1 = .ok ⟨"none/demo-1.0-py3-none-any.whl"⟩ ∧
      demoFiles.filesBelow ["p", "none"] = [] ∧
      memberNames (demoPacking "none" "none").2.files ["p", "none", "demo-1.0-py3-none-any.whl"] =
        [".tmp0", "demo-1.0.dist-info/METADATA", "demo-1.0.dist-info/WHEEL",
          "demo-1.0.dist-info/RECORD"] ∧
      (demoPacking "lib/a.py" "dist").1 = .ok ⟨"dist/demo-1.0-py3-none-any.whl"⟩ ∧
      memberNames (demoPacking "lib/a.py" "dist").2.files
          ["p", "dist", "demo-1.0-py3-none-any.whl"] =
        ["", "demo-1.0.dist-info/METADATA", "demo-1.0.dist-info/WHEEL",
          "demo-1.0.dist-info/RECORD"] := by
  decide +kernel

/-- What is packed from one directory into another one is exactly what lay there. -/
theorem demo_packed_exactly :
    ∃ staged, Wheel.Written ⟨"dist"⟩ ⟨"dist/demo-1.0-py3-none-any.whl"⟩ demoFiles
        (demoPacking "lib" "dist").2.files (staged ++ demoWheel.description
          ++ [demoWheel.listing (staged ++ demoWheel.description)]) ∧
      PacksExactly demoFiles ⟨"lib"⟩ staged := by
  obtain ⟨room, staged, hroom, hwritten, hdirectory, -, -⟩ :=
    pack_exact_iff demoWheel ⟨"lib"⟩ ⟨"dist"⟩ ⟨"dist/demo-1.0-py3-none-any.whl"⟩
      (.ofFiles demoFiles) (demoPacking "lib" "dist").2 demoPacking_outcome
  have hdist : (demoFiles.createDirectories ⟨"dist"⟩).2.resolve ⟨"dist"⟩ .followed =
      .ok ["p", "dist"] := by decide +kernel
  obtain rfl : ["p", "dist"] = room := Except.ok.inj (hdist.symm.trans hroom)
  exact ⟨staged, hwritten, (hdirectory ["p", "lib"] (by decide +kernel)).mpr (by decide)⟩

end StableWheel
