import Mathlib.Control.Monad.Basic
import StableWheel.Proofs.Package.Copies
import StableWheel.Proofs.Path.Order

/-! What staging does to the bytes of files.

Staging is meant to leave every file that it copies as it is, and to give every target the
bytes that a source had before (`Faithful`). It copies one file after the other, though, and
empties a target before it reads the source, so this depends on how sources and targets
overlap. `provenance` tells from the places of the copies alone whose bytes end up where, and
`stage_faithful_iff` says exactly when staging is faithful. It always is if no source is also a
target; it is not if a file is copied onto itself (`self_copy_empties`). -/
namespace StableWheel.PackageLayout

/-! ### Whose bytes end up where -/

/-- Whose bytes are at a place after a copy; no one's, if the copy emptied it. -/
def Copy.provenance (c : Copy) (x : Location) : Option Location :=
  if x = c.place then if c.place = c.origin then none else some c.origin else some x

/-- Whose bytes are at a place after copies; no one's, if it was emptied. -/
def provenance : List Copy → Location → Option Location
  | [], x => some x
  | c :: cs, x => (provenance cs x).bind c.provenance

/-- The bytes that came from a place, or none at all. -/
def bytesFrom (before : FileSystem) : Option Location → Option ByteArray
  | some x => before.bytesAt x
  | none => some ByteArray.empty

/-- The bytes at a place after copies, by those of the files before. -/
def settled (before : FileSystem) (cs : List Copy) (x : Location) : Option ByteArray :=
  bytesFrom before (provenance cs x)

theorem Copy.Made.bytesFrom {before after : FileSystem} {c : Copy} (h : c.Made before after)
    (x : Location) : after.bytesAt x = PackageLayout.bytesFrom before (c.provenance x) := by
  rw [h.bytesAt, Copy.provenance]
  by_cases hx : x = c.place
  · rw [if_pos hx, if_pos hx]
    by_cases hself : c.place = c.origin
    · rw [if_pos hself, if_pos hself, PackageLayout.bytesFrom]
    · rw [if_neg hself, if_neg hself, PackageLayout.bytesFrom]
  · rw [if_neg hx, if_neg hx, PackageLayout.bytesFrom]

theorem settled_cons {before between : FileSystem} {c : Copy} (h : c.Made before between)
    (cs : List Copy) (x : Location) : settled before (c :: cs) x = settled between cs x := by
  rw [settled, settled, provenance]
  rcases provenance cs x with _ | y
  · rfl
  · rw [Option.bind_some, ← h.bytesFrom y, bytesFrom]

theorem Copies.bytesAt {before after : FileSystem} {cs : List Copy} (h : Copies before cs after)
    (x : Location) : after.bytesAt x = settled before cs x := by
  induction h with
  | nil => rfl
  | cons hmade _ ih => rw [ih, settled_cons hmade]

/-- A place that is no target keeps its bytes. -/
theorem provenance_of_untouched {cs : List Copy} {x : Location} (h : ∀ c ∈ cs, c.place ≠ x) :
    provenance cs x = some x := by
  induction cs with
  | nil => rfl
  | cons c rest ih =>
    rw [provenance, ih fun c' hc' => h c' (List.mem_cons_of_mem _ hc'), Option.bind_some,
      Copy.provenance, if_neg fun heq => h c (List.mem_cons_self ..) heq.symm]

theorem settled_of_untouched (before : FileSystem) {cs : List Copy} {x : Location}
    (h : ∀ c ∈ cs, c.place ≠ x) : settled before cs x = before.bytesAt x := by
  rw [settled, provenance_of_untouched h, bytesFrom]

/-! ### Faithful staging -/

/-- Sources keep their bytes, and what is at a target is what a source for it held before. -/
structure Faithful (before after : FileSystem) (cs : List Copy) (files : List Path) : Prop where
  sources : ∀ c ∈ cs, ∀ b, before.bytesAt c.origin = some b → after.bytesAt c.origin = some b
  returned : ∀ p ∈ files, ∃ c ∈ cs, c.target.same p = true ∧
    ∃ b, before.bytesAt c.origin = some b ∧ after.bytesOf p = some b

/-- The same of the files before alone, and of the places of the copies. -/
structure Harmless (before : FileSystem) (cs : List Copy) (files : List Path) : Prop where
  sources : ∀ c ∈ cs, ∀ b, before.bytesAt c.origin = some b → settled before cs c.origin = some b
  targets : ∀ c ∈ cs, c.target ∈ files → ∃ c' ∈ cs, c'.target.same c.target = true ∧
    ∃ b, before.bytesAt c'.origin = some b ∧ settled before cs c.place = some b

theorem faithful_iff {before after : FileSystem} {cs : List Copy} (ht : before.IsTree)
    (h : Copies before cs after) :
    Faithful before after cs (Path.sorted (cs.map Copy.target)) ↔
      Harmless before cs (Path.sorted (cs.map Copy.target)) := by
  have hbytes : ∀ c ∈ cs, after.bytesOf c.target = settled before cs c.place := by
    intro c hc
    rw [FileSystem.bytesOf_resolved (h.resolve_target ht hc), h.bytesAt]
  constructor
  · intro hf
    refine ⟨fun c hc b hb => ?_, fun c hc hmem => ?_⟩
    · rw [← h.bytesAt]
      exact hf.sources c hc b hb
    · rw [← hbytes c hc]
      exact hf.returned c.target hmem
  · intro hh
    refine ⟨fun c hc b hb => ?_, fun p hp => ?_⟩
    · rw [h.bytesAt]
      exact hh.sources c hc b hb
    · obtain ⟨c, hc, rfl⟩ := List.mem_map.mp (Path.mem_of_mem_sorted hp)
      rw [hbytes c hc]
      exact hh.targets c hc hp

/-! ### Sources that are no targets -/

/-- No source is a target as well, and different paths to write to are different places. -/
structure Apart (cs : List Copy) : Prop where
  origins : ∀ c ∈ cs, ∀ c' ∈ cs, c'.place ≠ c.origin
  places : ∀ c ∈ cs, ∀ c' ∈ cs, c'.place = c.place → c'.target.same c.target = true

/-- Every copied file was there when its turn came. -/
theorem Copies.origin_bytes {before after : FileSystem} {cs : List Copy}
    (h : Copies before cs after) {c : Copy} (hc : c ∈ cs) (hd : ∀ c' ∈ cs, c'.place ≠ c.origin) :
    ∃ b, before.bytesAt c.origin = some b := by
  induction h with
  | nil => cases hc
  | @cons first rest before between after hmade hrest ih =>
    have hkept : between.bytesAt c.origin = before.bytesAt c.origin := by
      rw [hmade.bytesAt, if_neg]
      exact fun heq => hd first (List.mem_cons_self ..) heq.symm
    rcases List.mem_cons.mp hc with rfl | hc
    · exact hmade.origin_bytes
    · rw [← hkept]
      exact ih hc fun c' hc' => hd c' (List.mem_cons_of_mem _ hc')

/-- The bytes at a target come from the source that was last copied there. -/
theorem provenance_of_apart {cs : List Copy}
    (hd : ∀ c ∈ cs, ∀ c' ∈ cs, c'.place ≠ c.origin) {c : Copy} (hc : c ∈ cs) :
    ∃ c' ∈ cs, c'.place = c.place ∧ provenance cs c.place = some c'.origin := by
  induction cs generalizing c with
  | nil => cases hc
  | cons first rest ih =>
    have hfirst : first ∈ first :: rest := List.mem_cons_self ..
    have hrest : ∀ c' ∈ rest, c' ∈ first :: rest := fun c' hc' => List.mem_cons_of_mem _ hc'
    by_cases hlater : ∃ c' ∈ rest, c'.place = c.place
    · obtain ⟨c', hc', hplace⟩ := hlater
      obtain ⟨last, hlast, hsame, hp⟩ :=
        ih (fun a ha a' ha' => hd a (hrest a ha) a' (hrest a' ha')) hc'
      refine ⟨last, hrest last hlast, hsame.trans hplace, ?_⟩
      rw [provenance, ← hplace, hp, Option.bind_some, Copy.provenance, if_neg]
      exact fun heq => hd last (hrest last hlast) first hfirst heq.symm
    · have hnone : ∀ c' ∈ rest, c'.place ≠ c.place := fun c' hc' heq => hlater ⟨c', hc', heq⟩
      have heq : c = first := by
        rcases List.mem_cons.mp hc with heq | hc
        · exact heq
        · exact absurd rfl (hnone c hc)
      subst heq
      refine ⟨c, hfirst, rfl, ?_⟩
      rw [provenance, provenance_of_untouched hnone, Option.bind_some, Copy.provenance,
        if_pos rfl, if_neg (hd c hfirst c hfirst)]

theorem Apart.harmless {before after : FileSystem} {cs : List Copy} (ha : Apart cs)
    (h : Copies before cs after) (files : List Path) : Harmless before cs files := by
  refine ⟨fun c hc b hb => ?_, fun c hc _ => ?_⟩
  · rw [settled_of_untouched before (ha.origins c hc)]
    exact hb
  · obtain ⟨c', hc', hplace, hp⟩ := provenance_of_apart ha.origins hc
    obtain ⟨b, hb⟩ := h.origin_bytes hc' (ha.origins c' hc')
    refine ⟨c', hc', ha.places c hc c' hc' hplace, b, hb, ?_⟩
    rw [settled, hp, bytesFrom, hb]

theorem provenance_of_self_copy (earlier : List Copy) {later : List Copy} {c : Copy}
    (hself : c.place = c.origin) (hlast : ∀ c' ∈ later, c'.place ≠ c.origin) :
    provenance (earlier ++ c :: later) c.origin = none := by
  induction earlier with
  | nil =>
    rw [List.nil_append, provenance, provenance_of_untouched hlast, Option.bind_some,
      Copy.provenance, if_pos hself.symm, if_pos hself]
  | cons first rest ih => rw [List.cons_append, provenance, ih, Option.bind_none]

/-- A file that is copied onto itself, and not written again, is empty afterwards. -/
theorem self_copy_empties {before after : FileSystem} {earlier later : List Copy} {c : Copy}
    (h : Copies before (earlier ++ c :: later) after) (hself : c.place = c.origin)
    (hlast : ∀ c' ∈ later, c'.place ≠ c.origin) :
    after.bytesAt c.origin = some ByteArray.empty := by
  rw [h.bytesAt, settled, provenance_of_self_copy earlier hself hlast, bytesFrom]

/-- **Exactly when staging is faithful.** The copies that it made decide it, by their places and
the bytes of the files before: each source has to end up with its own bytes again, and each path
in the answer with the bytes of a source for that path. If no source is a target, both hold. -/
theorem stage_faithful_iff (l : PackageLayout) (root lib : Path) (files : List Path)
    (s s' : Session) (ht : s.files.IsTree)
    (h : (l.stage root lib).run s = (.ok files, s')) :
    ∃ cs, Rounds (l.rounds root lib) s.files cs s'.files ∧
      files = Path.sorted (cs.map Copy.target) ∧
      (Faithful s.files s'.files cs files ↔ Harmless s.files cs files) ∧
      (Apart cs → Faithful s.files s'.files cs files) := by
  obtain ⟨cs, hrounds, hfiles⟩ := stage_ok h
  have hiff : Faithful s.files s'.files cs files ↔ Harmless s.files cs files := by
    rw [hfiles]
    exact faithful_iff ht hrounds.copies
  exact ⟨cs, hrounds, hfiles, hiff, fun ha => hiff.mpr (ha.harmless hrounds.copies files)⟩

/-! ### Packages that are staged onto themselves -/

/-- A package right where it is to be staged. -/
def inPlaceFiles : FileSystem where
  entries :=
    [(["p"], .directory), (["p", "build"], .directory), (["p", "build", "lib"], .directory),
      (["p", "build", "lib", "pkg"], .directory),
      (["p", "build", "lib", "pkg", "a.py"], .file ⟨.data ⟨#[120]⟩, false⟩)]
  workingDirectory := ["p"]

def inPlaceLayout : PackageLayout := ⟨["pkg"], [("", ⟨"build/lib"⟩)], []⟩

def inPlaceStaging : Except StageError (List Path) × Session :=
  (inPlaceLayout.stage ⟨"/p"⟩ ⟨"/p/build/lib"⟩).run (.ofFiles inPlaceFiles)

theorem inPlaceStaging_ok : inPlaceStaging.1 = .ok [⟨"/p/build/lib/pkg/a.py"⟩] := by
  decide +kernel

theorem inPlaceFiles_isTree : inPlaceFiles.IsTree :=
  FileSystem.isTree_of_entries (by decide) (by decide)

/-- Staging goes well, and the module that it was to copy is empty. -/
theorem staging_in_place_empties :
    inPlaceStaging.1 = .ok [⟨"/p/build/lib/pkg/a.py"⟩] ∧
      modulesIn inPlaceFiles ⟨"/p/build/lib/pkg"⟩ = .ok [⟨"/p/build/lib/pkg/a.py"⟩] ∧
      inPlaceFiles.bytesOf ⟨"/p/build/lib/pkg/a.py"⟩ = some ⟨#[120]⟩ ∧
      inPlaceStaging.2.files.bytesOf ⟨"/p/build/lib/pkg/a.py"⟩ = some ByteArray.empty := by
  refine ⟨inPlaceStaging_ok, ?_, ?_, ?_⟩ <;> decide +kernel

theorem inPlaceStaging_bytes :
    inPlaceStaging.2.files.bytesOf ⟨"/p/build/lib/pkg/a.py"⟩ = some ByteArray.empty := by
  decide +kernel

theorem inPlaceFiles_bytes {place : Location} {b : ByteArray}
    (h : inPlaceFiles.bytesAt place = some b) : b = ⟨#[120]⟩ := by
  obtain ⟨f, -, rfl, hf⟩ := FileSystem.mem_entries_of_bytesAt h
  simp only [inPlaceFiles, List.mem_cons, Prod.mk.injEq, reduceCtorEq, and_false, false_or,
    Entry.file.injEq, List.not_mem_nil, or_false] at hf
  rw [hf.2]
  rfl

/-- The copy of the module onto itself is not harmless, and the module is not staged faithfully. -/
theorem inPlaceStaging_unfaithful :
    ∃ cs, Rounds (inPlaceLayout.rounds ⟨"/p"⟩ ⟨"/p/build/lib"⟩) inPlaceFiles cs
        inPlaceStaging.2.files ∧
      [⟨"/p/build/lib/pkg/a.py"⟩] = Path.sorted (cs.map Copy.target) ∧
      ¬ Faithful inPlaceFiles inPlaceStaging.2.files cs [⟨"/p/build/lib/pkg/a.py"⟩] ∧
      ¬ Harmless inPlaceFiles cs [⟨"/p/build/lib/pkg/a.py"⟩] ∧ ¬ Apart cs := by
  have hstaged : (inPlaceLayout.stage ⟨"/p"⟩ ⟨"/p/build/lib"⟩).run (.ofFiles inPlaceFiles) =
      (.ok [⟨"/p/build/lib/pkg/a.py"⟩], inPlaceStaging.2) := by
    show inPlaceStaging = _
    rw [← inPlaceStaging_ok]
  obtain ⟨cs, hrounds, hfiles, hiff, hapart⟩ :=
    stage_faithful_iff inPlaceLayout ⟨"/p"⟩ ⟨"/p/build/lib"⟩ _ (.ofFiles inPlaceFiles)
      inPlaceStaging.2 inPlaceFiles_isTree hstaged
  have hnot : ¬ Faithful inPlaceFiles inPlaceStaging.2.files cs
      [⟨"/p/build/lib/pkg/a.py"⟩] := by
    intro hfaithful
    obtain ⟨c, -, -, b, hbefore, hafter⟩ := hfaithful.returned _ (List.mem_singleton_self _)
    rw [inPlaceStaging_bytes, inPlaceFiles_bytes hbefore] at hafter
    exact absurd hafter (by decide)
  exact ⟨cs, hrounds, hfiles, hnot, fun h => hnot (hiff.mpr h), fun h => hnot (hapart h)⟩

end StableWheel.PackageLayout
