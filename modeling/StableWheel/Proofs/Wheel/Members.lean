import Mathlib.Data.List.Basic
import StableWheel.Proofs.FileSystem.Bytes
import StableWheel.Proofs.FileSystem.Growth
import StableWheel.Proofs.Session.Effects
import StableWheel.Wheel.Pack

/-! What a wheel holds.

An archive only grows, and no name is taken twice, so a member that was added once is there in
the end and is the only one of its name (`Holds`). Packing reads a staged file while nothing but
its own temporary file changes: every file of the tree is in the wheel with the bytes that it
had when packing began (`pack_ok`). -/
namespace StableWheel

/-- Among members there is one of a name, with these contents, and no other of that name. -/
def Holds (members : List Archive.Member) (name : String) (bytes : ByteArray) : Prop :=
  ∃ m ∈ members, m.name = name ∧ m.content = bytes ∧ ∀ m' ∈ members, m'.name = name → m' = m

/-! ### Adding members -/

namespace Archive

theorem add_ok {members members' : List Member} {m : Member} (h : add members m = .ok members') :
    members' = members ++ [m] ∧ ∀ m' ∈ members, m'.name ≠ m.name := by
  unfold add at h
  split at h
  · cases h
  · next hnew =>
    cases h
    refine ⟨rfl, fun m' hm' heq => hnew ?_⟩
    exact List.any_eq_true.mpr ⟨m', hm', by simpa using heq⟩

end Archive

variable {members members' : List Archive.Member} {name : String} {bytes : ByteArray}

theorem Holds.add {m : Archive.Member} (hh : Holds members name bytes)
    (h : Archive.add members m = .ok members') : Holds members' name bytes := by
  obtain ⟨rfl, hnew⟩ := Archive.add_ok h
  obtain ⟨found, hfound, hname, hcontent, honly⟩ := hh
  refine ⟨found, List.mem_append_left _ hfound, hname, hcontent, fun m' hm' hname' => ?_⟩
  rcases List.mem_append.mp hm' with hold | hlast
  · exact honly m' hold hname'
  · rw [List.mem_singleton] at hlast
    subst hlast
    exact absurd (hname.trans hname'.symm) (hnew found hfound)

theorem holds_added {m : Archive.Member} (h : Archive.add members m = .ok members') :
    Holds members' m.name m.content := by
  obtain ⟨rfl, hnew⟩ := Archive.add_ok h
  refine ⟨m, by simp, rfl, rfl, fun m' hm' hname' => ?_⟩
  rcases List.mem_append.mp hm' with hold | hlast
  · exact absurd hname' (hnew m' hold)
  · exact List.mem_singleton.mp hlast

theorem Holds.describe {w : Wheel} (hh : Holds members name bytes)
    (h : w.describe members = .ok members') : Holds members' name bytes := by
  unfold Wheel.describe at h
  obtain ⟨ms, h₁, h⟩ := bind_ok h
  obtain ⟨ms', h₂, h₃⟩ := bind_ok h
  exact ((hh.add h₁).add h₂).add h₃

/-! ### The tree -/

namespace FileSystem

/-- Every file below a place is come upon. -/
theorem mem_filesBelow {fs : FileSystem} {place names : Location} {b : ByteArray}
    (h : fs.bytesAt (place ++ names) = some b) : names ∈ fs.filesBelow place := by
  obtain ⟨f, -, -, hmem⟩ := mem_entries_of_bytesAt h
  unfold filesBelow
  rw [List.mem_mergeSort]
  exact List.mem_filterMap.mpr ⟨_, hmem, List.isPrefixOf?_eq_some_iff_append_eq.mpr rfl⟩

/-- The tree stays where it is as long as nothing is taken away. -/
theorem treeAt_within {part whole : FileSystem} (h : Within part whole) {p : Path}
    {tree : Location} (ht : part.treeAt p = .ok (some tree)) :
    whole.treeAt p = .ok (some tree) := by
  unfold treeAt at ht ⊢
  obtain ⟨⟨place, n⟩, hf, ht⟩ := bind_ok ht
  rw [find_within h hf]
  cases n with
  | link target =>
    obtain ⟨⟨place', n'⟩, hf', ht⟩ := bind_ok ht
    cases n' with
    | directory =>
      show (whole.find p .followed >>= _) = _
      rw [find_within h hf']
      exact ht
    | file f => cases ht
    | link target' => cases ht
  | _ => exact ht

theorem Grows.treeAt {before after : FileSystem} (h : Grows before after) {p : Path}
    {tree : Location} (ht : before.treeAt p = .ok (some tree)) :
    after.treeAt p = .ok (some tree) := by
  unfold FileSystem.treeAt at ht ⊢
  obtain ⟨⟨place, n⟩, hf, ht⟩ := bind_ok ht
  cases n with
  | file f =>
    obtain ⟨f', hf'⟩ := h.find_file hf
    rw [hf']
    exact ht
  | directory =>
    rw [h.find_directory hf]
    exact ht
  | link target =>
    rw [h.find_link hf]
    obtain ⟨⟨place', n'⟩, hf', ht⟩ := bind_ok ht
    cases n' with
    | directory =>
      show (after.find p .followed >>= _) = _
      rw [h.find_directory hf']
      exact ht
    | file f => cases ht
    | link target' => cases ht

end FileSystem

/-! ### Packing -/

namespace Packing
open FileSystem

/-- One staged file, read when its turn comes. -/
theorem addStaged_cons {temporary tree names : Location} {rest : List Location} {s s' : Session}
    (h : (addStaged temporary tree (names :: rest) members).run s = (.ok members', s')) :
    ∃ b next, s.files.bytesAt (tree ++ names) = some b ∧
      Archive.add members (wheelMember (Text.join "/" names) b) = .ok next ∧
      (addStaged temporary tree rest next).run
        { s with files := s.files.put temporary (.file (archiveFile next)) } = (.ok members', s') := by
  rw [addStaged, Task.run_bind, Task.run_files] at h
  dsimp only at h
  rcases hl : s.files.lookup (tree ++ names) with _ | (f | _ | _)
  · rw [hl] at h; cases h
  · rw [hl] at h
    obtain ⟨content, s₀, hcontent, h₀⟩ := Task.run_bind_ok h
    cases hcontent
    obtain ⟨next, s₁, hadd, h₁⟩ := Task.run_bind_ok h₀
    obtain ⟨_, s₂, hput, h₂⟩ := Task.run_bind_ok h₁
    obtain ⟨hadded, hs₁⟩ := Task.run_ofExcept_ok hadd
    obtain ⟨_, hs₂⟩ := Task.run_onFiles_ok hput
    refine ⟨f.content.bytes, next, bytesAt_file hl, mapError_ok hadded, ?_⟩
    rw [hs₂, hs₁] at h₂
    exact h₂
  · rw [hl] at h; cases h
  · rw [hl] at h; cases h

/-- What the archive holds already it keeps, and every staged file is added to it. -/
theorem addStaged_ok {temporary tree : Location} (hroot : temporary ≠ []) (list : List Location)
    {members members' : List Archive.Member} {s s' : Session}
    (h : (addStaged temporary tree list members).run s = (.ok members', s')) :
    (∀ name bytes, Holds members name bytes → Holds members' name bytes) ∧
      ∀ names ∈ list, tree ++ names ≠ temporary → ∀ b,
        s.files.bytesAt (tree ++ names) = some b → Holds members' (Text.join "/" names) b := by
  induction list generalizing members s with
  | nil =>
    cases h
    exact ⟨fun _ _ hh => hh, fun names hnames => by cases hnames⟩
  | cons first rest ih =>
    obtain ⟨b, next, hb, hadd, hrest⟩ := addStaged_cons h
    obtain ⟨hkeeps, hall⟩ := ih hrest
    refine ⟨fun name bytes hh => hkeeps name bytes (hh.add hadd), ?_⟩
    intro names hnames hother c hc
    rcases List.mem_cons.mp hnames with rfl | hnames
    · rw [hb] at hc
      cases hc
      exact hkeeps _ _ (holds_added hadd)
    · refine hall names hnames hother c ?_
      rw [bytesAt_put _ _ _ hroot, if_neg hother, hc]

theorem fill_ok {w : Wheel} {temporary : Location} {staging : Path} {s s' : Session}
    (hroot : temporary ≠ []) (h : (fill w temporary staging).run s = (.ok members, s'))
    {tree : Location} (ht : s.files.treeAt staging = .ok (some tree)) {names : Location}
    (hother : tree ++ names ≠ temporary) {b : ByteArray}
    (hb : s.files.bytesAt (tree ++ names) = some b) :
    Holds members (Text.join "/" names) b := by
  rw [fill, Task.run_bind, Task.run_files] at h
  dsimp only at h
  rw [ht] at h
  obtain ⟨found, s₀, hfound, h₀⟩ := Task.run_bind_ok h
  cases hfound
  rw [Task.run_bind, Task.run_files] at h₀
  obtain ⟨staged, s₁, hstaged, h₁⟩ := Task.run_bind_ok h₀
  obtain ⟨hdescribed, _⟩ := Task.run_ofExcept_ok h₁
  obtain ⟨_, hall⟩ := addStaged_ok hroot _ hstaged
  exact (hall names (mem_filesBelow hb) hother b hb).describe (mapError_ok hdescribed)

theorem createTemporary_cases (fs : FileSystem) (directory : Path) :
    (∃ e, createTemporary fs directory = (.error e, fs)) ∨ ∃ room name,
      fs.resolve directory .followed = .ok room ∧ (∃ n, name = temporaryName n) ∧
      fs.lookup (room ++ [name]) = none ∧ createTemporary fs directory =
        (.ok (room ++ [name]), fs.put (room ++ [name]) (.file (archiveFile []))) := by
  unfold createTemporary
  rcases hf : fs.find directory .followed with e | ⟨room, n⟩
  · exact .inl ⟨e, rfl⟩
  · dsimp only
    cases hn : freshName fs room with
    | none => exact .inl ⟨_, rfl⟩
    | some name =>
      unfold freshName at hn
      obtain ⟨n, -, hname⟩ := List.mem_map.mp (List.mem_of_find?_eq_some hn)
      exact .inr ⟨room, name, (find_iff.mp hf).1, ⟨n, hname.symm⟩,
        by simpa using List.find?_some hn, rfl⟩

theorem createTemporary_ok {fs : FileSystem} {directory : Path} {temporary : Location}
    (h : (createTemporary fs directory).1 = .ok temporary) :
    temporary ≠ [] ∧ fs.lookup temporary = none ∧
      (createTemporary fs directory).2 = fs.put temporary (.file (archiveFile [])) := by
  rcases createTemporary_cases fs directory with ⟨e, hnone⟩ | ⟨room, name, -, -, hfresh, hput⟩
  · rw [hnone] at h
    cases h
  · rw [hput] at h
    cases h
    exact ⟨by simp, hfresh, by rw [hput]⟩

/-- A file is moved, or nothing happens. -/
theorem moveFile_cases (fs : FileSystem) (source : Location) (f : File) (target : Path) :
    (∃ e, fs.moveFile source f target = (.error e, fs)) ∨ ∃ place,
      fs.resolve target .kept = .ok place ∧ fs.lookup place ≠ some .directory ∧
      fs.moveFile source f target = (.ok (), (fs.remove source).put place (.file f)) := by
  unfold moveFile
  cases hr : fs.resolve target .kept with
  | error e => cases e <;> exact .inl ⟨_, rfl⟩
  | ok place =>
    dsimp only
    split
    · exact .inl ⟨_, rfl⟩
    · next hl =>
      split
      · exact .inl ⟨_, rfl⟩
      · exact .inr ⟨place, rfl, hl, rfl⟩

/-- A file that was moved to a path is where the path led. -/
theorem moveFile_ok {fs after : FileSystem} {source : Location} {f : File} {target : Path}
    (h : fs.moveFile source f target = (.ok (), after)) :
    ∃ place, fs.resolve target .kept = .ok place ∧ after.lookup place = some (.file f) := by
  rcases moveFile_cases fs source f target with ⟨e, hnone⟩ | ⟨place, hplace, hl, hmove⟩
  · rw [hnone] at h
    cases h
  · rw [hmove] at h
    cases h
    exact ⟨place, hplace, lookup_put_self _ place _ (ne_root hl)⟩

theorem cleaningUp_ok {α : Type} {temporary : Location} {t : Task WheelError α} {a : α}
    {s s' : Session} (h : (cleaningUp temporary t).run s = (.ok a, s')) :
    t.run s = (.ok a, s') := by
  rw [cleaningUp, Task.run_ofRun] at h
  split at h
  · next heq =>
    cases h
    exact heq
  · cases h

end Packing

/-- A wheel that was packed: it was moved to its path in the end, and it holds every file of the
tree. -/
theorem Wheel.pack_ok {w : Wheel} {staging dist wheel : Path} {s s' : Session}
    (h : (w.pack staging dist).run s = (.ok wheel, s')) :
    ∃ members temporary moving,
      FileSystem.moveFile moving temporary (Packing.archiveFile members) wheel =
        (.ok (), s'.files) ∧
      ∀ tree, s.files.treeAt staging = .ok (some tree) → ∀ names b,
        s.files.bytesAt (tree ++ names) = some b → Holds members (Text.join "/" names) b := by
  rw [pack] at h
  obtain ⟨_, s₀, hroom, h₀⟩ := Task.run_bind_ok h
  obtain ⟨temporary, s₁, htemporary, h₁⟩ := Task.run_bind_ok h₀
  obtain ⟨_, s₂, hclean, h₂⟩ := Task.run_bind_ok h₁
  obtain ⟨_, s₃, hnote, h₃⟩ := Task.run_bind_ok h₂
  obtain ⟨members, s₄, hfill, hmove⟩ := Task.run_bind_ok (Packing.cleaningUp_ok hclean)
  obtain ⟨_, hs₀⟩ := Task.run_onFiles_ok hroom
  obtain ⟨hcreated, hs₁⟩ := Task.run_onFiles_ok htemporary
  obtain ⟨hmoved, hs₂⟩ := Task.run_onFiles_ok hmove
  obtain ⟨hroot, hfresh, hput⟩ := Packing.createTemporary_ok hcreated
  obtain ⟨hwheel, hs'⟩ := Task.run_pure_ok h₃
  -- up to here nothing was taken away, and the temporary file is where nothing was
  have hwithin : FileSystem.Within s.files s₁.files := by
    rw [hs₁]
    show FileSystem.Within s.files (Packing.createTemporary s₀.files dist).2
    rw [hput]
    refine FileSystem.Within.trans ?_ (FileSystem.put_within hfresh _)
    rw [hs₀]
    exact FileSystem.createDirectories_within s.files dist
  have hleft : s'.files =
      (s₄.files.moveFile temporary (Packing.archiveFile members) (dist.join ⟨w.fileName⟩)).2 := by
    rw [hs', Task.run_note_ok hnote, hs₂]
  refine ⟨members, temporary, s₄.files, ?_, fun tree ht names b hb => ?_⟩
  · rw [hwheel]
    exact Prod.ext hmoved hleft.symm
  · have hother : tree ++ names ≠ temporary := by
      rintro rfl
      obtain ⟨f, hl, -⟩ := FileSystem.mem_entries_of_bytesAt hb
      have hl₀ : s₀.files.lookup (tree ++ names) = some (.file f) := by
        rw [hs₀]
        exact (FileSystem.createDirectories_within s.files dist).lookup _ _ hl
      rw [hfresh] at hl₀
      cases hl₀
    exact Packing.fill_ok hroot hfill (FileSystem.treeAt_within hwithin ht) hother
      (FileSystem.bytesAt_within hwithin hb)

end StableWheel
