import StableWheel.Proofs.FileSystem.Change

/-! File systems that are trees.

Whatever is somewhere is in a directory, and work is done in a directory. Steps that start in a
directory then end at one or at a name in one (`Walk.lands`), and links are never what they end
at, unless someone asks for the link itself. New directories and files keep trees trees. -/
namespace StableWheel.FileSystem

/-- Everything is in a directory, and so is whoever works there. -/
structure IsTree (fs : FileSystem) : Prop where
  parent : ∀ place name n, fs.lookup (place ++ [name]) = some n →
    fs.lookup place = some .directory
  working : fs.lookup fs.workingDirectory = some .directory

/-- What keeps trees trees. -/
def KeepsTree (before after : FileSystem) : Prop := before.IsTree → after.IsTree

theorem keepsTree_composes : Composes KeepsTree := ⟨fun _ h => h, fun h h' ht => h' (h ht)⟩

variable {fs : FileSystem} {ending : Ending}

theorem IsTree.above (h : IsTree fs) {place : Location} {n : Entry}
    (hl : fs.lookup place = some n) : fs.lookup place.dropLast = some .directory := by
  rcases List.eq_nil_or_concat place with rfl | ⟨d, name, rfl⟩
  · exact lookup_root fs
  · rw [List.concat_eq_append] at hl ⊢
    rw [List.dropLast_concat]
    exact h.parent d name n hl

theorem origin_directory {place : Location} (hp : fs.lookup place = some .directory)
    (p : Path) : fs.lookup (origin place p) = some .directory := by
  unfold origin
  split
  · exact lookup_root fs
  · exact hp

/-- Whether files are a tree shows in their entries. -/
theorem isTree_of_entries (h : ∀ e ∈ fs.entries, fs.lookup e.1.dropLast = some .directory)
    (hw : fs.lookup fs.workingDirectory = some .directory) : IsTree fs := by
  refine ⟨fun place name n hl => ?_, hw⟩
  rw [lookup, if_neg (by simp)] at hl
  obtain ⟨before, after, heq, -⟩ := List.lookup_eq_some_iff.mp hl
  have hmem : (place ++ [name], n) ∈ fs.entries := by rw [heq]; simp
  have hup := h _ hmem
  rwa [List.dropLast_concat] at hup

/-! ### Where steps end -/

/-- A directory, or a name in one; a link only if links are kept. -/
structure Lands (fs : FileSystem) (ending : Ending) (found : Location) : Prop where
  place : fs.lookup found = some .directory ∨
    ∃ d name, found = d ++ [name] ∧ fs.lookup d = some .directory
  plain : ending ≠ .kept → ∀ target, fs.lookup found ≠ some (.link target)

theorem Walk.lands (h : IsTree fs) {links : Nat} {start found : Location} {steps : List Step}
    (hw : Walk fs ending links start steps found) (hs : fs.lookup start = some .directory) :
    Lands fs ending found := by
  induction hw with
  | here => exact ⟨.inl hs, fun _ target => by rw [hs]; simp⟩
  | stay _ ih => exact ih hs
  | inside _ ih => exact ih hs
  | up _ ih => exact ih (h.above hs)
  | directory _ hl _ ih => exact ih hl
  | nothing _ hl => exact ⟨.inr ⟨_, _, rfl, hs⟩, fun _ target => by rw [hl]; simp⟩
  | file _ hl => exact ⟨.inr ⟨_, _, rfl, hs⟩, fun _ target => by rw [hl]; simp⟩
  | kept _ _ hk => exact ⟨.inr ⟨_, _, rfl, hs⟩, fun hne => absurd hk hne⟩
  | followed _ _ _ _ ih => exact ih (origin_directory hs _)

theorem IsTree.lands (h : IsTree fs) {p : Path} {place : Location}
    (hr : fs.resolve p ending = .ok place) : Lands fs ending place :=
  (resolve_iff.mp hr).2.lands h (origin_directory h.working p)

/-! ### One new entry -/

/-- Anything may be put into a directory, unless it takes the place of another directory. -/
theorem IsTree.put_in (h : IsTree fs) {d : Location} {name : String} {n : Entry}
    (hd : fs.lookup d = some .directory)
    (hn : n = .directory ∨ fs.lookup (d ++ [name]) ≠ some .directory) :
    IsTree (fs.put (d ++ [name]) n) := by
  have hnew := lookup_put fs (d ++ [name]) n
  -- a directory is still one: it was not replaced, or it was replaced by a directory
  have hstill : ∀ place, fs.lookup place = some .directory →
      (fs.put (d ++ [name]) n).lookup place = some .directory := by
    intro place hp
    rw [hnew place (by simp)]
    split
    · next heq =>
      rcases hn with rfl | hn
      · rfl
      · exact absurd (heq ▸ hp) hn
    · exact hp
  refine ⟨fun place name' m hm => hstill place ?_, hstill _ h.working⟩
  rw [hnew _ (by simp)] at hm
  split at hm
  · next heq =>
    obtain ⟨rfl, -⟩ := List.append_inj' heq rfl
    exact hd
  · exact h.parent place name' m hm

theorem Lands.put {place : Location} {n : Entry} (hp : Lands fs ending place) (h : IsTree fs)
    (hn : fs.lookup place ≠ some .directory) : IsTree (fs.put place n) := by
  rcases hp.place with hdir | ⟨d, name, rfl, hd⟩
  · exact absurd hdir hn
  · exact h.put_in hd (.inr hn)

theorem createDirectory_keepsTree (fs : FileSystem) (p : Path) :
    KeepsTree fs (fs.createDirectory p).2 := by
  intro h
  rcases createDirectory_cases fs p with hsame | ⟨place, hw, hnone, hput⟩
  · rwa [hsame]
  · rw [hput]
    exact (hw.lands h (origin_directory h.working p)).put h (by rw [hnone]; simp)

theorem createDirectories_keepsTree (fs : FileSystem) (p : Path) :
    KeepsTree fs (fs.createDirectories p).2 :=
  createDirectories_moves keepsTree_composes createDirectory_keepsTree fs p

theorem write_keepsTree (fs : FileSystem) (p : Path) (f : File) :
    KeepsTree fs (fs.write p f).2 := by
  intro h
  rcases write_cases fs p f with ⟨e, hw⟩ | ⟨place, hr, hn, hw⟩
  · rwa [hw]
  · rw [hw]
    exact (h.lands hr).put h hn

end StableWheel.FileSystem
