import StableWheel.Proofs.Path.Components
import StableWheel.Proofs.Path.Order

/-! Paths that differ in their spelling only.

Repeated separators, dots and a separator at the end are steps that stay where they are, so paths
with the same components head to the same place (`Heads.of_same`). -/
namespace StableWheel

/-- The component that a step stands for, if it leads anywhere. -/
def Step.component? : Step → Option Path.Component
  | enter name => some (.name name)
  | up => some .up
  | stay | inside => none

namespace FileSystem

/-- Where steps lead, in components. -/
def moves (steps : List Step) : List Path.Component := steps.filterMap Step.component?

variable {fs : FileSystem} {ending : Ending} {start found place : Location}
  {steps steps' : List Step} {p q : Path}

theorem moves_append (first more : List Step) : moves (first ++ more) = moves first ++ moves more :=
  List.filterMap_append

theorem aims_of_idle (h : ∀ step ∈ steps, step.component? = none) :
    Aims fs ending start steps start := by
  induction steps with
  | nil => exact .here
  | cons step rest ih =>
    have hrest := ih fun step hstep => h step (List.mem_cons_of_mem _ hstep)
    have hstep := h step (List.mem_cons_self ..)
    cases step with
    | stay => exact .stay hrest
    | inside => exact .inside hrest
    | up => cases hstep
    | enter name => cases hstep

/-- Only the steps that lead anywhere count. -/
theorem Aims.of_moves (h : Aims fs .followed start steps found)
    (hsame : moves steps' = moves steps) : Aims fs .followed start steps' found := by
  generalize hending : Ending.followed = ending at h
  -- the next step that leads anywhere comes after some that do not
  induction h generalizing steps' with
  | here => exact aims_of_idle (List.filterMap_eq_nil_iff.mp hsame)
  | stay _ ih => exact ih hsame
  | inside _ ih => exact ih hsame
  | up _ ih =>
    obtain ⟨idle, step, more, rfl, hidle, hstep, hmore⟩ := List.filterMap_eq_cons_iff.mp hsame
    cases step <;> cases hstep
    exact (aims_of_idle hidle).append (.up (ih hmore)) (by simp)
  | enter hl _ ih =>
    obtain ⟨idle, step, more, rfl, hidle, hstep, hmore⟩ := List.filterMap_eq_cons_iff.mp hsame
    cases step <;> cases hstep
    exact (aims_of_idle hidle).append (.enter hl (ih hmore)) (by simp)
  | kept _ hk =>
    subst hending
    cases hk
  | @followed _ _ rest target _ hl _ _ ih =>
    obtain ⟨idle, step, more, rfl, hidle, hstep, hmore⟩ := List.filterMap_eq_cons_iff.mp hsame
    cases step <;> cases hstep
    have hnext : moves (Step.ofPath target ++ more) = moves (Step.ofPath target ++ rest) := by
      rw [moves_append, moves_append]
      exact congrArg _ hmore
    refine (aims_of_idle hidle).append (.followed hl ?_ (ih hnext)) (by simp)
    rw [← hending]
    simp

/-! ### Paths -/

theorem moves_ofPath (p : Path) : moves (Step.ofPath p) = Path.stepsIn p.text.toList := by
  have hpiece : ∀ piece, (Step.ofPiece piece).bind Step.component? = Path.stepOf piece := by
    intro piece
    unfold Step.ofPiece Path.stepOf
    by_cases hempty : piece = []
    · simp [hempty]
    · by_cases hdot : piece = ['.']
      · simp [hdot, Step.component?]
      · by_cases hdots : piece = ['.', '.']
        · simp [hdots, Step.component?]
        · simp [hempty, hdot, hdots, Step.component?]
  obtain ⟨last, hlast, hsteps⟩ := Step.ofPath_eq p
  have hidle : moves last = [] := by rcases hlast with rfl | rfl <;> rfl
  rw [hsteps, moves_append, hidle, List.append_nil, moves, Step.named, List.filterMap_filterMap,
    Path.stepsIn]
  exact congrArg (List.filterMap · _) (funext hpiece)

/-- Paths with the same components head to the same place. -/
theorem Heads.of_same (h : fs.Heads .followed p place) (hsame : q.same p = true) :
    fs.Heads .followed q place := by
  have hcomponents := Path.same_iff.mp hsame
  have hstart : origin fs.workingDirectory q = origin fs.workingDirectory p := by
    have habsolute : q.isAbsolute = true ↔ p.isAbsolute = true := by
      rw [Path.isAbsolute_iff, Path.isAbsolute_iff, hcomponents]
    simp only [origin, habsolute]
  rw [Heads, hstart]
  refine Aims.of_moves h ?_
  rw [moves_ofPath, moves_ofPath, Path.stepsIn_eq_filter, Path.stepsIn_eq_filter, hcomponents]

end FileSystem
end StableWheel
