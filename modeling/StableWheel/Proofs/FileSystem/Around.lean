import StableWheel.Proofs.FileSystem.Abreast

/-! Paths that go around a place.

A path that enters nothing at a place or below it (`Around`) finds the same in all file systems that
have the same links and are the same outside this place (`Around.find`). -/
namespace StableWheel.FileSystem

/-- Steps that head somewhere without entering some place or anything below it. -/
inductive Around (fs : FileSystem) (top : Location) : Location → List Step → Location → Prop where
  | here {place} : Around fs top place [] place
  | stay {place rest found} : Around fs top place rest found →
      Around fs top place (.stay :: rest) found
  | inside {place rest found} : Around fs top place rest found →
      Around fs top place (.inside :: rest) found
  | up {place rest found} : Around fs top place.dropLast rest found →
      Around fs top place (.up :: rest) found
  | enter {place name rest found} : ¬ top <+: place ++ [name] →
      (∀ target, fs.lookup (place ++ [name]) ≠ some (.link target)) →
      Around fs top (place ++ [name]) rest found → Around fs top place (.enter name :: rest) found
  | followed {place name rest target found} : ¬ top <+: place ++ [name] →
      fs.lookup (place ++ [name]) = some (.link target) →
      Around fs top (origin place target) (Step.ofPath target ++ rest) found →
      Around fs top place (.enter name :: rest) found

/-- The same files outside a place. -/
structure SameOutside (top : Location) (a b : FileSystem) : Prop where
  workingDirectory : b.workingDirectory = a.workingDirectory
  lookup : ∀ place, ¬ top <+: place → a.lookup place = b.lookup place

variable {fs a b : FileSystem} {top start found : Location} {steps : List Step}

theorem Agree.sameOutside (h : Agree top a b) : SameOutside top a b :=
  ⟨h.workingDirectory, h.outside⟩

theorem Around.aims (h : Around fs top start steps found) :
    Aims fs .followed start steps found := by
  induction h with
  | here => exact .here
  | stay _ ih => exact .stay ih
  | inside _ ih => exact .inside ih
  | up _ ih => exact .up ih
  | enter _ hl _ ih => exact .enter hl ih
  | followed _ hl _ ih => exact .followed hl (by simp) ih

theorem Around.append {more : List Step} {last : Location} (h : Around fs top start steps found)
    (hmore : Around fs top found more last) : Around fs top start (steps ++ more) last := by
  induction h with
  | here => exact hmore
  | stay _ ih => exact .stay (ih hmore)
  | inside _ ih => exact .inside (ih hmore)
  | up _ ih => exact .up (ih hmore)
  | enter hout hl _ ih => exact .enter hout hl (ih hmore)
  | followed hout hl _ ih =>
    have hrest := ih hmore
    rw [List.append_assoc] at hrest
    exact .followed hout hl hrest

/-- Where there are no links, names lead around a place unless they lead there. -/
theorem Unlinked.around (h : Unlinked fs []) {names : Location} (hout : ¬ top <+: start ++ names) :
    Around fs top start (names.map .enter) (start ++ names) := by
  induction names generalizing start with
  | nil =>
    rw [List.append_nil]
    exact .here
  | cons name rest ih =>
    rw [List.append_cons] at hout ⊢
    exact .enter (fun hin => hout (hin.trans (List.prefix_append _ rest)))
      (fun target => h _ target List.nil_prefix) (ih hout)

/-- What is at the place makes no difference for the walk. -/
theorem Around.walk (h : Around fs top start steps found) (hlinks : SameLinks fs a)
    (hsame : SameOutside top a b) (links : Nat) :
    a.walk .followed links start steps = b.walk .followed links start steps := by
  induction h generalizing links with
  | here => rw [walk_nil, walk_nil]
  | stay _ ih => rw [walk_stay, walk_stay, ih]
  | inside _ ih => rw [walk_inside, walk_inside, ih]
  | up _ ih => rw [walk_up, walk_up, ih]
  | @enter place name rest _ hout hl _ ih =>
    have hentered : a.entered .followed links place name rest =
        b.entered .followed links place name rest := by
      unfold entered
      rw [← hsame.lookup _ hout]
      rcases hn : a.lookup (place ++ [name]) with _ | (f | _ | target)
      · rfl
      · rfl
      · exact ih links
      · exact absurd ((hlinks.link _ _).mp hn) (hl target)
    rw [walk_enter, walk_enter, hentered]
  | @followed place name rest target _ hout hl _ ih =>
    have hlink := (hlinks.link _ _).mpr hl
    have hentered : a.entered .followed links place name rest =
        b.entered .followed links place name rest := by
      unfold entered
      rw [← hsame.lookup _ hout, hlink]
      dsimp only
      rw [if_neg (by simp), if_neg (by simp)]
      cases links with
      | zero => rfl
      | succ links => exact ih links
    rw [walk_enter, walk_enter, hentered]

/-- A path around a place finds the same, whatever is there. -/
theorem Around.find {p : Path}
    (h : Around fs top (origin fs.workingDirectory p) (Step.ofPath p) found)
    (hout : ¬ top <+: found) (hlinks : SameLinks fs a) (hsame : SameOutside top a b) :
    a.find p .followed = b.find p .followed := by
  have hresolve : a.resolve p .followed = b.resolve p .followed := by
    unfold resolve
    rw [hsame.workingDirectory, hlinks.workingDirectory, h.walk hlinks hsame]
  unfold FileSystem.find
  rw [← hresolve]
  rcases hr : a.resolve p .followed with e | place
  · rfl
  · have hheads : fs.Heads .followed p found := h.aims
    obtain rfl : place = found := (heads_of_resolve hr).unique (hlinks.heads hheads)
    simp only [bind, Except.bind, hsame.lookup _ hout]

end StableWheel.FileSystem
