import Mathlib.Data.List.Forall2
import Mathlib.Data.List.Nodup
import StableWheel.Proofs.Wheel.Members
import StableWheel.Proofs.Wheel.Remains

/-! From staged files to the members of a wheel.

No name is taken twice (`Archive.add_nodup`), so however many files are added, all names differ in
the end. Each file that is come upon gives one member, in the same order (`addStaged_added`), and
behind these stand the three files that describe the wheel (`describe_ok`). -/
namespace StableWheel
open FileSystem

namespace Archive

theorem add_nodup {members members' : List Member} {m : Member}
    (h : add members m = .ok members') (hn : (members.map (·.name)).Nodup) :
    (members'.map (·.name)).Nodup := by
  obtain ⟨rfl, hnew⟩ := add_ok h
  rw [List.map_append, List.map_singleton, List.nodup_append]
  refine ⟨hn, List.nodup_singleton _, ?_⟩
  rintro name hname other hother rfl
  obtain ⟨m', hm', rfl⟩ := List.mem_map.mp hname
  exact hnew m' hm' (List.mem_singleton.mp hother)

end Archive

/-! ### Staged files -/

/-- A member for the file that names lead to from a tree: it has their name, and the contents are
the file's, unless it is the one place that is left out. -/
structure Taken (fs : FileSystem) (but tree names : Location) (m : Archive.Member) : Prop where
  name : m.name = Text.join "/" names
  made : m = wheelMember m.name m.content
  content : tree ++ names ≠ but → fs.bytesAt (tree ++ names) = some m.content

namespace Packing
variable {temporary tree : Location} {members members' : List Archive.Member} {s s' : Session}

/-- What is read of one file does not hang on what was written before. -/
theorem addStaged_added (hroot : temporary ≠ []) (list : List Location)
    (h : (addStaged temporary tree list members).run s = (.ok members', s')) :
    ∃ added, members' = members ++ added ∧
      List.Forall₂ (Taken s.files temporary tree) list added ∧
      ((members.map (·.name)).Nodup → (members'.map (·.name)).Nodup) := by
  induction list generalizing members s with
  | nil =>
    cases h
    exact ⟨[], by simp, .nil, id⟩
  | cons names rest ih =>
    obtain ⟨b, next, hb, hadd, hrest⟩ := addStaged_cons h
    obtain ⟨added, rfl, hadded, hnodup⟩ := ih hrest
    obtain ⟨rfl, -⟩ := Archive.add_ok hadd
    refine ⟨wheelMember (Text.join "/" names) b :: added, by simp, .cons ⟨rfl, rfl, fun _ => hb⟩ ?_,
      fun hn => hnodup (Archive.add_nodup hadd hn)⟩
    refine hadded.imp fun names' m hm => ⟨hm.name, hm.made, fun hother => ?_⟩
    have hcontent := hm.content hother
    rwa [bytesAt_put _ _ _ hroot, if_neg hother] at hcontent

/-- The archive holds what was come upon in the tree, if there is one, and the description. -/
theorem fill_staged {w : Wheel} {staging : Path} (hroot : temporary ≠ [])
    (h : (fill w temporary staging).run s = (.ok members, s')) :
    ∃ tree staged, s.files.treeAt staging = .ok tree ∧ w.describe staged = .ok members ∧
      (staged.map (·.name)).Nodup ∧ (tree = none → staged = []) ∧
      ∀ place, tree = some place →
        List.Forall₂ (Taken s.files temporary place) (s.files.filesBelow place) staged := by
  rw [fill, Task.run_bind, Task.run_files] at h
  dsimp only at h
  obtain ⟨tree, s₀, htree, h₀⟩ := Task.run_bind_ok h
  obtain ⟨hat, rfl⟩ := Task.run_ofExcept_ok htree
  cases tree with
  | none =>
    obtain ⟨staged, s₁, hstaged, h₁⟩ := Task.run_bind_ok h₀
    cases hstaged
    exact ⟨none, [], mapError_ok hat, mapError_ok (Task.run_ofExcept_ok h₁).1, List.nodup_nil,
      fun _ => rfl, fun place hplace => by cases hplace⟩
  | some place =>
    rw [Task.run_bind, Task.run_files] at h₀
    obtain ⟨staged, s₁, hstaged, h₁⟩ := Task.run_bind_ok h₀
    obtain ⟨added, hadded, htaken, hnodup⟩ := addStaged_added hroot _ hstaged
    rw [List.nil_append] at hadded
    subst hadded
    refine ⟨some place, staged, mapError_ok hat, mapError_ok (Task.run_ofExcept_ok h₁).1,
      hnodup List.nodup_nil, (fun hnone => by cases hnone), fun place' hplace => ?_⟩
    cases hplace
    exact htaken

end Packing

/-! ### The description -/

namespace Wheel

/-- The files that describe the wheel without its list of all files. -/
def description (w : Wheel) : List Archive.Member :=
  [wheelMember w.metadataName w.metadata.toUTF8, wheelMember w.wheelFileName w.wheelFile.toUTF8]

/-- The list of all files as one more file. -/
def listing (w : Wheel) (members : List Archive.Member) : Archive.Member :=
  wheelMember w.recordName (recordText members w.recordName).toUTF8

theorem describe_ok {w : Wheel} {staged members : List Archive.Member}
    (h : w.describe staged = .ok members) :
    members = staged ++ w.description ++ [w.listing (staged ++ w.description)] ∧
      ((staged.map (·.name)).Nodup → (members.map (·.name)).Nodup) := by
  unfold describe at h
  obtain ⟨first, h₁, h⟩ := bind_ok h
  obtain ⟨second, h₂, h₃⟩ := bind_ok h
  refine ⟨?_, fun hn => Archive.add_nodup h₃ (Archive.add_nodup h₂ (Archive.add_nodup h₁ hn))⟩
  obtain ⟨rfl, -⟩ := Archive.add_ok h₁
  obtain ⟨rfl, -⟩ := Archive.add_ok h₂
  obtain ⟨rfl, -⟩ := Archive.add_ok h₃
  simp [description, listing]

/-- The path of a wheel led to a place, and there is an archive of these members now. -/
def Written (dist wheel : Path) (before after : FileSystem)
    (members : List Archive.Member) : Prop :=
  ∃ place, (before.createDirectories dist).2.resolve wheel .kept = .ok place ∧
    after.lookup place = some (.file (Packing.archiveFile members))

/-- A wheel that was packed holds what was come upon when only its own temporary file was new. -/
theorem pack_written {w : Wheel} {staging dist wheel : Path} {s s' : Session}
    (h : (w.pack staging dist).run s = (.ok wheel, s')) :
    ∃ room name started tree staged, Packing.Begun s.files dist room name started ∧
      Written dist wheel s.files s'.files
        (staged ++ w.description ++ [w.listing (staged ++ w.description)]) ∧
      started.files.treeAt staging = .ok tree ∧
      ((staged ++ w.description ++ [w.listing (staged ++ w.description)]).map (·.name)).Nodup ∧
      (tree = none → staged = []) ∧ ∀ place, tree = some place →
        List.Forall₂ (Taken started.files (room ++ [name]) place)
          (started.files.filesBelow place) staged := by
  have hpacks := w.pack_packs staging dist s
  rw [h] at hpacks
  generalize s'.files = after at hpacks ⊢
  cases hpacks with
  | @done room name started members filled _ place hbegun hfill _ hplace hfree =>
    obtain ⟨tree, staged, htree, hdescribe, hnodup, hnone, htaken⟩ :=
      Packing.fill_staged (by simp) hfill
    obtain ⟨rfl, hdescribed⟩ := describe_ok hdescribe
    refine ⟨room, name, started, tree, staged, hbegun, ⟨place, ?_, ?_⟩, htree,
      hdescribed hnodup, hnone, htaken⟩
    · exact (hbegun.hides hfill).resolve hplace
    · exact lookup_put_self _ _ _ (ne_root hfree)

end Wheel

/-! ### A small wheel -/

/-- A directory with one file and one without any. -/
def demoFiles : FileSystem where
  entries :=
    [(["p"], .directory), (["p", "lib"], .directory),
      (["p", "lib", "a.py"], .file ⟨.data ⟨#[49]⟩, false⟩), (["p", "none"], .directory)]
  workingDirectory := ["p"]

def demoWheel : Wheel := ⟨"demo", "1.0", Tag.pure, none, none⟩

/-- What comes of packing a tree there into a directory. -/
def demoPacking (staging dist : String) : Except WheelError Path × Session :=
  (demoWheel.pack ⟨staging⟩ ⟨dist⟩).run (.ofFiles demoFiles)

theorem demoPacking_ok :
    (demoPacking "lib" "dist").1 = .ok ⟨"dist/demo-1.0-py3-none-any.whl"⟩ := by
  decide +kernel

theorem demoPacking_outcome : (demoWheel.pack ⟨"lib"⟩ ⟨"dist"⟩).run (.ofFiles demoFiles) =
    (.ok ⟨"dist/demo-1.0-py3-none-any.whl"⟩, (demoPacking "lib" "dist").2) := by
  show demoPacking "lib" "dist" = _
  rw [← demoPacking_ok]

/-- The names of the members of the archive at a place. -/
def memberNames (fs : FileSystem) (place : Location) : List String :=
  match fs.lookup place with
  | some (.file ⟨.archive members, _⟩) => members.map (·.name)
  | _ => []

end StableWheel
