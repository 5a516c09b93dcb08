import StableWheel.Proofs.FileSystem.Ancestors
import StableWheel.Proofs.FileSystem.Naming

/-! The same work done on two file systems.

Two file systems that agree but for what is below some place are kept `Abreast` by work that is
done on both: wherever something was done it was done to both, so they are alike there, and
everywhere else each is still what it was at the start. Creating directories and writing files
where paths head that do not depend on what is below the place keep them so
(`Abreast.createDirectories`, `Abreast.put`). -/
namespace StableWheel.FileSystem

/-! ### Agreement -/

/-- A tree, tidily listed, with no link at a place or below it. -/
structure Plain (top : Location) (fs : FileSystem) : Prop where
  tree : fs.IsTree
  tidy : fs.Tidy
  unlinked : Unlinked fs top

/-- Two file systems with the same files, but for what is at a place or below it. -/
structure Agree (top : Location) (a b : FileSystem) : Prop where
  left : Plain top a
  right : Plain top b
  workingDirectory : b.workingDirectory = a.workingDirectory
  outside : ∀ place, ¬ top <+: place → a.lookup place = b.lookup place

variable {top : Location} {a b a' b' start start' : FileSystem}

theorem Agree.sameLinks (h : Agree top a b) : SameLinks a b := by
  refine ⟨h.workingDirectory, fun place target => ?_⟩
  by_cases hin : top <+: place
  · exact iff_of_false (h.right.unlinked place target hin) (h.left.unlinked place target hin)
  · rw [h.outside place hin]

theorem Agree.symm (h : Agree top a b) : Agree top b a :=
  ⟨h.right, h.left, h.workingDirectory.symm, fun place hout => (h.outside place hout).symm⟩

theorem Plain.of_sameLinks (h : Plain top a) (hlinks : SameLinks a a') (htree : a'.IsTree)
    (htidy : a'.Tidy) : Plain top a' :=
  ⟨htree, htidy, fun place target hin hl =>
    h.unlinked place target hin ((hlinks.link place target).mp hl)⟩

/-! ### Work on both -/

/-- Two file systems on which the same was done from two starts: there are the links that there
were, and at each place they are alike, or they are both what they were at the start. -/
structure Abreast (top : Location) (start start' a b : FileSystem) : Prop where
  agree : Agree top a b
  links : SameLinks start a
  links' : SameLinks start' b
  lookup : ∀ place, a.lookup place = b.lookup place ∨
    a.lookup place = start.lookup place ∧ b.lookup place = start'.lookup place

theorem Agree.abreast (h : Agree top a b) : Abreast top a b a b :=
  ⟨h, .refl a, .refl b, fun _ => .inr ⟨rfl, rfl⟩⟩

theorem Abreast.symm (h : Abreast top start start' a b) : Abreast top start' start b a :=
  ⟨h.agree.symm, h.links', h.links, fun place => (h.lookup place).imp Eq.symm And.symm⟩

theorem Abreast.trans (h : Abreast top start start' a b) (h' : Abreast top a b a' b') :
    Abreast top start start' a' b' := by
  refine ⟨h'.agree, h.links.trans h'.links, h.links'.trans h'.links', fun place => ?_⟩
  rcases h'.lookup place with hsame | ⟨hkept, hkept'⟩
  · exact .inl hsame
  · rw [hkept, hkept']
    exact h.lookup place

/-- They stay abreast if each place becomes alike in both or is left alone in both. -/
theorem Abreast.step (h : Abreast top start start' a b) (hleft : Plain top a')
    (hright : Plain top b') (hlinks : SameLinks a a') (hlinks' : SameLinks b b')
    (hall : ∀ place, a'.lookup place = b'.lookup place ∨
      a'.lookup place = a.lookup place ∧ b'.lookup place = b.lookup place) :
    Abreast top start start' a' b' := by
  refine ⟨⟨hleft, hright, ?_, fun place hout => ?_⟩, h.links.trans hlinks, h.links'.trans hlinks',
    fun place => ?_⟩
  · rw [hlinks.workingDirectory, hlinks'.workingDirectory, h.agree.workingDirectory]
  · rcases hall place with hsame | ⟨hkept, hkept'⟩
    · exact hsame
    · rw [hkept, hkept', h.agree.outside place hout]
  · rcases hall place with hsame | ⟨hkept, hkept'⟩
    · exact .inl hsame
    · rw [hkept, hkept']
      exact h.lookup place

theorem Abreast.createDirectories (h : Abreast top start start' a b) {p : Path}
    (ha : a.createDirectories p = (.ok (), a')) (hb : b.createDirectories p = (.ok (), b')) :
    Abreast top start start' a' b' := by
  have hplain : ∀ {fs after : FileSystem}, Plain top fs →
      fs.createDirectories p = (.ok (), after) →
      Plain top after ∧ SameLinks fs after := by
    intro fs after hfs hafter
    have hgrows := (createDirectories_makes fs p).grows
    have htree := createDirectories_keepsTree fs p hfs.tree
    have htidy := createDirectories_tidy fs p hfs.tidy
    rw [hafter] at hgrows htree htidy
    exact ⟨hfs.of_sameLinks hgrows.sameLinks htree htidy, hgrows.sameLinks⟩
  obtain ⟨hleft, hlinks⟩ := hplain h.agree.left ha
  obtain ⟨hright, hlinks'⟩ := hplain h.agree.right hb
  refine h.step hleft hright hlinks hlinks' fun place => ?_
  -- the same directories are on the way in both
  have hsame : (∃ above, Above above p ∧ b.Heads .followed above place) ↔
      ∃ above, Above above p ∧ a.Heads .followed above place :=
    exists_congr fun above => and_congr_right fun _ =>
      ⟨h.agree.sameLinks.symm.heads, h.agree.sameLinks.heads⟩
  rcases createDirectories_exact h.agree.left.tree ha place with ⟨hon, hmade⟩ | ⟨hoff, hkept⟩ <;>
    rcases createDirectories_exact h.agree.right.tree hb place with ⟨hon', hmade'⟩ | ⟨hoff', hkept'⟩
  · exact .inl (hmade.trans hmade'.symm)
  · exact absurd (hsame.mpr hon) hoff'
  · exact absurd (hsame.mp hon') hoff
  · exact .inr ⟨hkept, hkept'⟩

theorem Plain.put {fs : FileSystem} (h : Plain top fs) {p : Path} {place : Location}
    (hr : fs.resolve p .written = .ok place) (hn : fs.lookup place ≠ some .directory) (f : File) :
    Plain top (fs.put place (.file f)) :=
  h.of_sameLinks (put_file_grows h.tree hr hn f).sameLinks ((h.tree.lands hr).put h.tree hn)
    (h.tidy.put (h.tidy.resolve hr) _)

/-- A file that is written at the place or below it leaves all else as it is. -/
theorem Plain.agree_put {fs : FileSystem} (h : Plain top fs) {p : Path} {place : Location}
    (hr : fs.resolve p .written = .ok place) (hn : fs.lookup place ≠ some .directory)
    (hin : top <+: place) (f : File) : Agree top fs (fs.put place (.file f)) := by
  refine ⟨h, h.put hr hn f, rfl, fun other hout => (lookup_put_of_ne _ _ _ _ fun heq => ?_).symm⟩
  exact hout (heq ▸ hin)

/-- A path that can be written in both is written at the same place. -/
theorem Abreast.put (h : Abreast top start start' a b) {p : Path} {place place' : Location}
    (hr : a.resolve p .written = .ok place) (hn : a.lookup place ≠ some .directory)
    (hr' : b.resolve p .written = .ok place') (hn' : b.lookup place' ≠ some .directory) (f : File) :
    place' = place ∧ Abreast top start start' (a.put place (.file f)) (b.put place (.file f)) := by
  obtain rfl : place' = place :=
    (heads_of_resolve hr').unique (h.agree.sameLinks.heads (heads_of_resolve hr))
  refine ⟨rfl, h.step (h.agree.left.put hr hn f) (h.agree.right.put hr' hn' f)
    (put_file_grows h.agree.left.tree hr hn f).sameLinks
    (put_file_grows h.agree.right.tree hr' hn' f).sameLinks fun other => ?_⟩
  by_cases ho : other = place'
  · rw [ho, lookup_put_self _ _ _ (ne_root hn), lookup_put_self _ _ _ (ne_root hn')]
    exact .inl rfl
  · exact .inr ⟨lookup_put_of_ne _ _ _ _ ho, lookup_put_of_ne _ _ _ _ ho⟩

end StableWheel.FileSystem
