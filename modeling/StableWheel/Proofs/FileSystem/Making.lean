import StableWheel.Proofs.FileSystem.Growth
import StableWheel.Proofs.FileSystem.Within

/-! Making a directory and those it is in.

What is there stays, and what is new is a directory that the path leads to afterwards, or one of
the paths above it (`createDirectories_makes`). -/
namespace StableWheel.FileSystem

/-- A path, or one that it is below. -/
inductive Above : Path → Path → Prop where
  | self {p} : Above p p
  | parent {p q above} : p.parent = some q → Above above q → Above above p

/-- Nothing but directories is new, each one where the path or one above it leads. -/
structure Makes (p : Path) (before after : FileSystem) : Prop where
  kept : Within before after
  made : ∀ place n, before.lookup place = none → after.lookup place = some n →
    n = .directory ∧ ∃ above, Above above p ∧ after.find above .followed = .ok (place, .directory)

theorem Makes.grows {p : Path} {before after : FileSystem} (h : Makes p before after) :
    Grows before after where
  workingDirectory := h.kept.workingDirectory.symm
  directory place hl := h.kept.lookup place _ hl
  link place target hl := h.kept.lookup place _ hl
  file place f hl := ⟨f, h.kept.lookup place _ hl⟩
  nothing place target hnone hl := by
    have hdirectory := (h.made place _ hnone hl).1
    cases hdirectory

theorem Makes.refl (p : Path) (fs : FileSystem) : Makes p fs fs :=
  ⟨.refl fs, fun place n hnone hl => by rw [hnone] at hl; cases hl⟩

theorem Makes.trans {p : Path} {a b c : FileSystem} (h : Makes p a b) (h' : Makes p b c) :
    Makes p a c := by
  refine ⟨h.kept.trans h'.kept, fun place n hnone hl => ?_⟩
  cases hb : b.lookup place with
  | none => exact h'.made place n hb hl
  | some m =>
    obtain ⟨rfl, above, habove, hfound⟩ := h.made place m hnone hb
    rw [h'.kept.lookup place _ hb] at hl
    cases hl
    exact ⟨rfl, above, habove, h'.grows.find_directory hfound⟩

theorem Makes.below {p q : Path} {before after : FileSystem} (hp : p.parent = some q)
    (h : Makes q before after) : Makes p before after := by
  refine ⟨h.kept, fun place n hnone hl => ?_⟩
  obtain ⟨hn, above, habove, hfound⟩ := h.made place n hnone hl
  exact ⟨hn, above, .parent hp habove, hfound⟩

/-! ### One directory -/

/-- Steps that end where nothing is end at the directory that is made there. -/
theorem Walk.made {fs after : FileSystem} (h : Grows fs after) {links : Nat}
    {start found : Location} {steps : List Step} (hw : Walk fs .kept links start steps found)
    (hnone : fs.lookup found = none) (hmade : after.lookup found = some .directory)
    {ending : List Step} (he : ending = [] ∨ ending = [.inside]) :
    Walk after .followed links start (steps ++ ending) found := by
  have hend : ∀ {links}, Walk after .followed links found ending found := by
    rcases he with rfl | rfl
    · exact .here
    · exact .inside .here
  have hpass : ∀ {name rest rest'}, Passable .kept name rest → Passable .followed name rest' :=
    fun hp => ⟨by simp, hp.2⟩
  induction hw with
  | here => exact hend
  | stay _ ih => exact .stay (ih hnone hmade hend)
  | inside _ ih => exact .inside (ih hnone hmade hend)
  | up _ ih => exact .up (ih hnone hmade hend)
  | directory hp hl _ ih => exact .directory (hpass hp) (h.directory _ hl) (ih hnone hmade hend)
  | nothing hp _ => exact .directory (hpass hp) hmade hend
  | file _ hl =>
    rw [hl] at hnone
    cases hnone
  | kept _ hl _ =>
    rw [hl] at hnone
    cases hnone
  | followed hp hl _ _ ih =>
    refine .followed (hpass hp) (h.link _ _ hl) (by simp) ?_
    have hrest := ih hnone hmade hend
    rwa [List.append_assoc] at hrest

/-- A new directory is where its path leads. -/
theorem createDirectory_found (fs : FileSystem) (p : Path) :
    (∃ e, fs.createDirectory p = (.error e, fs)) ∨ ∃ place, fs.lookup place = none ∧
      fs.createDirectory p = (.ok (), fs.put place .directory) ∧
      (fs.put place .directory).find p .followed = .ok (place, .directory) := by
  unfold createDirectory
  cases hc : checkPath p with
  | error e => exact .inl ⟨e, rfl⟩
  | ok _ =>
    cases hw : walk fs .kept linkLimit (origin fs.workingDirectory p) (Step.named p) with
    | error e => exact .inl ⟨e, rfl⟩
    | ok place =>
      cases hl : fs.lookup place with
      | some n => exact .inl ⟨.os .exists, by simp [bind, Except.bind, hl]⟩
      | none =>
        have hroot : place ≠ [] := ne_root (by rw [hl]; simp)
        have hmade := lookup_put_self fs place .directory hroot
        refine .inr ⟨place, hl, by simp [bind, Except.bind, hl], find_iff.mpr ⟨?_, hmade⟩⟩
        refine resolve_iff.mpr ⟨hc, (walk_iff.mp hw).made (put_grows hroot (by simp) (.inl hl)) hl
          hmade ?_⟩
        split
        · exact .inr rfl
        · exact .inl rfl

theorem createDirectory_makes (fs : FileSystem) (p : Path) :
    Makes p fs (fs.createDirectory p).2 := by
  rcases createDirectory_found fs p with ⟨e, hsame⟩ | ⟨place, hnone, hput, hfound⟩
  · rw [hsame]
    exact .refl p fs
  · rw [hput]
    refine ⟨put_within hnone .directory, fun other n hother hl => ?_⟩
    by_cases ho : other = place
    · subst ho
      rw [(find_iff.mp hfound).2] at hl
      cases hl
      exact ⟨rfl, p, .self, hfound⟩
    · rw [lookup_put_of_ne fs place other _ ho, hother] at hl
      cases hl

theorem ensureDirectory_makes (fs : FileSystem) (p : Path) :
    Makes p fs (fs.ensureDirectory p).2 := by
  have hp := createDirectory_makes fs p
  unfold ensureDirectory
  split
  · next heq => rwa [heq] at hp
  · next heq =>
    rw [heq] at hp
    split <;> exact hp

/-! ### All that are missing -/

theorem createUpwards_makes (n : Nat) (fs : FileSystem) (p : Path) :
    Makes p fs (fs.createUpwards n p).2 := by
  induction n generalizing fs p with
  | zero => exact ensureDirectory_makes fs p
  | succ n ih =>
    have hp := ensureDirectory_makes fs p
    unfold createUpwards
    split
    · next fs' he =>
      rw [he] at hp
      split
      · exact hp
      · next above habove =>
        split
        · exact hp.trans (ensureDirectory_makes fs' p)
        · have hup := (ih fs' above).below habove
          split
          · next heq =>
            rw [heq] at hup
            exact hp.trans hup
          · next heq =>
            rw [heq] at hup
            exact (hp.trans hup).trans (ensureDirectory_makes _ p)
    · exact hp

theorem createDirectories_makes (fs : FileSystem) (p : Path) :
    Makes p fs (fs.createDirectories p).2 := by
  unfold createDirectories
  split
  · exact .refl p fs
  · exact createUpwards_makes _ fs p

end StableWheel.FileSystem
