import StableWheel.Proofs.FileSystem.Growth

/-! Where paths head, whatever is there.

`Heads` takes a path as far as links decide it: names that are missing, or that name a file, are
passed as if they named directories. A path that leads anywhere leads where it heads
(`heads_of_resolve`), and as long as nobody touches a link, it heads there all the time
(`SameLinks.heads`). Below a directory without links the text of a path alone decides
(`Unlinked.aims`). -/
namespace StableWheel.FileSystem

/-- The same links, and the same directory that relative paths start from. -/
structure SameLinks (before after : FileSystem) : Prop where
  workingDirectory : after.workingDirectory = before.workingDirectory
  link : ∀ place target,
    after.lookup place = some (.link target) ↔ before.lookup place = some (.link target)

theorem SameLinks.refl (fs : FileSystem) : SameLinks fs fs := ⟨rfl, fun _ _ => .rfl⟩

theorem SameLinks.trans {a b c : FileSystem} (h : SameLinks a b) (h' : SameLinks b c) :
    SameLinks a c :=
  ⟨h'.workingDirectory.trans h.workingDirectory,
    fun place target => (h'.link place target).trans (h.link place target)⟩

theorem SameLinks.symm {a b : FileSystem} (h : SameLinks a b) : SameLinks b a :=
  ⟨h.workingDirectory.symm, fun place target => (h.link place target).symm⟩

theorem Grows.sameLinks {before after : FileSystem} (h : Grows before after) :
    SameLinks before after := by
  refine ⟨h.workingDirectory, fun place target => ⟨fun hl => ?_, h.link place target⟩⟩
  rcases hb : before.lookup place with _ | (f | _ | target')
  · exact absurd hl (h.nothing place target hb)
  · obtain ⟨f', hf⟩ := h.file place f hb
    rw [hf] at hl
    cases hl
  · rw [h.directory place hb] at hl
    cases hl
  · rw [h.link place target' hb] at hl
    exact hl

/-! ### Steps -/

/-- Where steps head from a directory. Only links count; anything else that is entered is taken for
a directory. -/
inductive Aims (fs : FileSystem) (ending : Ending) : Location → List Step → Location → Prop where
  | here {place} : Aims fs ending place [] place
  | stay {place rest found} : Aims fs ending place rest found →
      Aims fs ending place (.stay :: rest) found
  | inside {place rest found} : Aims fs ending place rest found →
      Aims fs ending place (.inside :: rest) found
  | up {place rest found} : Aims fs ending place.dropLast rest found →
      Aims fs ending place (.up :: rest) found
  | enter {place name rest found} :
      (∀ target, fs.lookup (place ++ [name]) ≠ some (.link target)) →
      Aims fs ending (place ++ [name]) rest found →
      Aims fs ending place (.enter name :: rest) found
  | kept {place name target} : fs.lookup (place ++ [name]) = some (.link target) →
      ending = .kept → Aims fs ending place [.enter name] (place ++ [name])
  | followed {place name rest target found} :
      fs.lookup (place ++ [name]) = some (.link target) → ¬ (rest = [] ∧ ending = .kept) →
      Aims fs ending (origin place target) (Step.ofPath target ++ rest) found →
      Aims fs ending place (.enter name :: rest) found

variable {fs : FileSystem} {ending : Ending} {start found : Location} {steps : List Step}

theorem Walk.aims {links : Nat} (h : Walk fs ending links start steps found) :
    Aims fs ending start steps found := by
  induction h with
  | here => exact .here
  | stay _ ih => exact .stay ih
  | inside _ ih => exact .inside ih
  | up _ ih => exact .up ih
  | directory _ hl _ ih => exact .enter (fun target => by rw [hl]; simp) ih
  | nothing _ hl => exact .enter (fun target => by rw [hl]; simp) .here
  | file _ hl => exact .enter (fun target => by rw [hl]; simp) .here
  | kept _ hl hk => exact .kept hl hk
  | followed _ hl hk _ ih => exact .followed hl hk ih

theorem Aims.unique (h : Aims fs ending start steps found) {other : Location}
    (h' : Aims fs ending start steps other) : found = other := by
  induction h with
  | here => cases h'; rfl
  | stay _ ih => cases h' with | stay h' => exact ih h'
  | inside _ ih => cases h' with | inside h' => exact ih h'
  | up _ ih => cases h' with | up h' => exact ih h'
  | enter hl _ ih =>
    cases h' with
    | enter _ h' => exact ih h'
    | kept hl' _ => exact absurd hl' (hl _)
    | followed hl' _ _ => exact absurd hl' (hl _)
  | kept hl hk =>
    cases h' with
    | enter hl' _ => exact absurd hl (hl' _)
    | kept _ _ => rfl
    | followed _ hk' _ => exact absurd ⟨rfl, hk⟩ hk'
  | followed hl hk _ ih =>
    cases h' with
    | enter hl' _ => exact absurd hl (hl' _)
    | kept _ hk' => exact absurd ⟨rfl, hk'⟩ hk
    | followed hl' _ h' =>
      rw [hl] at hl'
      cases hl'
      exact ih h'

theorem SameLinks.aims {before after : FileSystem} (h : SameLinks before after)
    (ha : Aims before ending start steps found) : Aims after ending start steps found := by
  induction ha with
  | here => exact .here
  | stay _ ih => exact .stay ih
  | inside _ ih => exact .inside ih
  | up _ ih => exact .up ih
  | enter hl _ ih => exact .enter (fun target hl' => hl target ((h.link _ _).mp hl')) ih
  | kept hl hk => exact .kept ((h.link _ _).mpr hl) hk
  | followed hl hk _ ih => exact .followed ((h.link _ _).mpr hl) hk ih

/-- Steps that come after others head on from where those head. -/
theorem Aims.append {more : List Step} (h : Aims fs .followed start steps found)
    {last : Location} (hmore : Aims fs ending found more last)
    (hend : more = [] → ending ≠ .kept) : Aims fs ending start (steps ++ more) last := by
  induction h with
  | here => exact hmore
  | stay _ ih => exact .stay (ih hmore)
  | inside _ ih => exact .inside (ih hmore)
  | up _ ih => exact .up (ih hmore)
  | enter hl _ ih => exact .enter hl (ih hmore)
  | kept _ hk => cases hk
  | followed hl _ _ ih =>
    refine .followed hl (fun hlast => ?_) ?_
    · exact hend (List.append_eq_nil_iff.mp hlast.1).2 hlast.2
    · have hrest := ih hmore
      rwa [List.append_assoc] at hrest

/-- What comes last of some steps heads on from where the steps before it head. -/
theorem Aims.split {first more : List Step} (h : Aims fs ending start (first ++ more) found)
    (hend : more = [] → ending ≠ .kept) :
    ∃ place, Aims fs .followed start first place ∧ Aims fs ending place more found := by
  generalize hall : first ++ more = all at h
  -- if nothing comes first, all steps come last; otherwise the first step is the first of all
  induction h generalizing first with
  | here =>
    obtain ⟨rfl, rfl⟩ := List.append_eq_nil_iff.mp hall
    exact ⟨_, .here, .here⟩
  | stay hrest ih =>
    rcases first with _ | ⟨step, first⟩
    · cases hall
      exact ⟨_, .here, .stay hrest⟩
    · obtain ⟨rfl, hrest⟩ := List.cons.inj hall
      obtain ⟨place, hfirst, hmore⟩ := ih hrest
      exact ⟨place, .stay hfirst, hmore⟩
  | inside hrest ih =>
    rcases first with _ | ⟨step, first⟩
    · cases hall
      exact ⟨_, .here, .inside hrest⟩
    · obtain ⟨rfl, hrest⟩ := List.cons.inj hall
      obtain ⟨place, hfirst, hmore⟩ := ih hrest
      exact ⟨place, .inside hfirst, hmore⟩
  | up hrest ih =>
    rcases first with _ | ⟨step, first⟩
    · cases hall
      exact ⟨_, .here, .up hrest⟩
    · obtain ⟨rfl, hrest⟩ := List.cons.inj hall
      obtain ⟨place, hfirst, hmore⟩ := ih hrest
      exact ⟨place, .up hfirst, hmore⟩
  | enter hl hrest ih =>
    rcases first with _ | ⟨step, first⟩
    · cases hall
      exact ⟨_, .here, .enter hl hrest⟩
    · obtain ⟨rfl, hrest⟩ := List.cons.inj hall
      obtain ⟨place, hfirst, hmore⟩ := ih hrest
      exact ⟨place, .enter hl hfirst, hmore⟩
  | kept hl hk =>
    rcases first with _ | ⟨step, first⟩
    · cases hall
      exact ⟨_, .here, .kept hl hk⟩
    · have hnone := (List.append_eq_nil_iff.mp (List.cons.inj hall).2).2
      exact absurd hk (hend hnone)
  | followed hl hk hrest ih =>
    rcases first with _ | ⟨step, first⟩
    · cases hall
      exact ⟨_, .here, .followed hl hk hrest⟩
    · obtain ⟨rfl, rfl⟩ := List.cons.inj hall
      obtain ⟨place, hfirst, hmore⟩ := ih (List.append_assoc ..)
      exact ⟨place, .followed hl (by simp) hfirst, hmore⟩

/-! ### Paths -/

/-- Where a path heads. -/
def Heads (fs : FileSystem) (ending : Ending) (p : Path) (place : Location) : Prop :=
  Aims fs ending (origin fs.workingDirectory p) (Step.ofPath p) place

variable {p : Path} {place : Location}

theorem heads_of_resolve (h : fs.resolve p ending = .ok place) : fs.Heads ending p place :=
  (resolve_iff.mp h).2.aims

theorem Heads.unique (h : fs.Heads ending p place) {other : Location}
    (h' : fs.Heads ending p other) : place = other := Aims.unique h h'

theorem SameLinks.heads {before after : FileSystem} (h : SameLinks before after)
    (hp : before.Heads ending p place) : after.Heads ending p place := by
  unfold Heads
  rw [h.workingDirectory]
  exact h.aims hp

/-! ### Below a directory without links -/

/-- There is no link at a place or below it. -/
def Unlinked (fs : FileSystem) (top : Location) : Prop :=
  ∀ place target, top <+: place → fs.lookup place ≠ some (.link target)

/-- Where steps lead by their names alone, from some names below a directory; nowhere, if they climb
out of it. -/
def follow : Location → List Step → Option Location
  | names, [] => some names
  | names, .enter name :: rest => follow (names ++ [name]) rest
  | [], .up :: _ => none
  | first :: names, .up :: rest => follow (first :: names).dropLast rest
  | names, .stay :: rest | names, .inside :: rest => follow names rest

theorem Unlinked.aims {top : Location} (h : Unlinked fs top) {names last : Location}
    (hf : follow names steps = some last) : Aims fs ending (top ++ names) steps (top ++ last) := by
  induction names, steps using follow.induct with
  | case1 names =>
    cases hf
    exact .here
  | case2 names name rest ih =>
    refine .enter (fun target => h _ target ⟨names ++ [name], by simp⟩) ?_
    rw [List.append_assoc]
    exact ih hf
  | case3 => cases hf
  | case4 first names rest ih =>
    refine .up ?_
    rw [List.dropLast_append_of_ne_nil (List.cons_ne_nil _ _)]
    exact ih hf
  | case5 names rest ih => exact .stay (ih hf)
  | case6 names rest ih => exact .inside (ih hf)

end StableWheel.FileSystem
