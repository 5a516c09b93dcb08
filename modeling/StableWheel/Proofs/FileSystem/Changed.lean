import StableWheel.Proofs.FileSystem.Heading
import StableWheel.Proofs.FileSystem.Making

/-! Which places change.

New directories are not counted: they are made wherever something is to be written. What happens in
several steps happens in one of them (`Changed.of_trans`), so it is enough to look at each step by
itself. As long as links stay what they are, the places can be told from the files at the beginning
(`Steady`). -/
namespace StableWheel.FileSystem

/-- Something is new, gone or different at a place, unless it is a new directory. -/
def Changed (before after : FileSystem) (place : Location) : Prop :=
  after.lookup place ≠ before.lookup place ∧
    ¬ (before.lookup place = none ∧ after.lookup place = some .directory)

theorem Changed.of_trans {a b c : FileSystem} {place : Location} (h : Changed a c place) :
    Changed a b place ∨ Changed b c place := by
  by_cases hfirst : Changed a b place
  · exact .inl hfirst
  refine .inr ⟨fun hsame => hfirst ?_, fun hmade => hfirst ?_⟩
  · unfold Changed
    rwa [← hsame]
  · refine ⟨fun hsame => h.2 ⟨by rw [← hsame]; exact hmade.1, hmade.2⟩, fun hmade' => ?_⟩
    have hnone := hmade.1
    rw [hmade'.2] at hnone
    cases hnone

theorem Makes.not_changed {p : Path} {before after : FileSystem} (h : Makes p before after)
    (place : Location) : ¬ Changed before after place := by
  rintro ⟨hne, hmade⟩
  rcases hb : before.lookup place with _ | n
  · rcases ha : after.lookup place with _ | n
    · exact hne (ha.trans hb.symm)
    · obtain ⟨rfl, -⟩ := h.made place n hb ha
      exact hmade ⟨hb, ha⟩
  · exact hne ((h.kept.lookup place n hb).trans hb.symm)

theorem changed_put {fs : FileSystem} {place other : Location} {n : Entry}
    (h : Changed fs (fs.put place n) other) : other = place :=
  Classical.byContradiction fun ho => h.1 (lookup_put_of_ne fs place other n ho)

instance (before after : FileSystem) (place : Location) : Decidable (Changed before after place) :=
  inferInstanceAs (Decidable (_ ∧ ¬ _))

/-! ### Steady changes -/

/-- In a tree with the links of the base, only some places change, and what comes of it is a tree
with these links again. -/
def Steady (base : FileSystem) (places : Location → Prop) (before after : FileSystem) : Prop :=
  SameLinks base before → before.IsTree →
    SameLinks base after ∧ after.IsTree ∧ ∀ place, Changed before after place → places place

variable {base : FileSystem} {places : Location → Prop}

theorem steady_composes : Composes (Steady base places) where
  refl fs := fun hlinks htree => ⟨hlinks, htree, fun place h => absurd rfl h.1⟩
  trans h h' := by
    intro hlinks htree
    obtain ⟨hlinks, htree, hfirst⟩ := h hlinks htree
    obtain ⟨hlinks, htree, hsecond⟩ := h' hlinks htree
    refine ⟨hlinks, htree, fun place hchanged => ?_⟩
    exact hchanged.of_trans.elim (hfirst place) (hsecond place)

theorem Steady.mono {others : Location → Prop} {before after : FileSystem}
    (h : Steady base places before after) (hall : ∀ place, places place → others place) :
    Steady base others before after := by
  intro hlinks htree
  obtain ⟨hlinks, htree, hchanges⟩ := h hlinks htree
  exact ⟨hlinks, htree, fun place hchanged => hall place (hchanges place hchanged)⟩

theorem createDirectories_steady (fs : FileSystem) (p : Path) :
    Steady base places fs (fs.createDirectories p).2 := by
  intro hlinks htree
  have hmakes := createDirectories_makes fs p
  exact ⟨hlinks.trans hmakes.grows.sameLinks, createDirectories_keepsTree fs p htree,
    fun place h => absurd h (hmakes.not_changed place)⟩

theorem write_steady (fs : FileSystem) (p : Path) (f : File) :
    Steady base (fun place => fs.Heads .followed p place) fs (fs.write p f).2 := by
  intro hlinks htree
  rcases write_cases fs p f with ⟨e, hw⟩ | ⟨place, hr, hn, hw⟩
  · rw [hw]
    exact steady_composes.refl fs hlinks htree
  · have htree' := write_keepsTree fs p f htree
    rw [hw] at htree' ⊢
    refine ⟨hlinks.trans (put_file_grows htree hr hn f).sameLinks, htree', fun other hchanged => ?_⟩
    rw [changed_put hchanged]
    exact heads_of_resolve (resolve_followed_of_written hr)

end StableWheel.FileSystem
