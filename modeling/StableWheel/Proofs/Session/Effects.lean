import StableWheel.Proofs.FileSystem.Change
import StableWheel.Session

/-! What a task made of several parts does.

A task that went well went well in each of its parts (`run_bind_ok`). What each part may do to
the files, the whole may do, whether it comes to its end or stops on the way (`Moves`). -/
namespace StableWheel

variable {ε ε' α β : Type}

/-! ### Parts that went well -/

theorem bind_ok {x : Except ε α} {f : α → Except ε β} {b : β} (h : (x >>= f) = .ok b) :
    ∃ a, x = .ok a ∧ f a = .ok b := by
  cases x with
  | error e => cases h
  | ok a => exact ⟨a, rfl, h⟩

theorem bind_ok_iff {x : Except ε α} {f : α → Except ε β} {b : β} :
    (x >>= f) = .ok b ↔ ∃ a, x = .ok a ∧ f a = .ok b := by
  refine ⟨bind_ok, ?_⟩
  rintro ⟨a, rfl, h⟩
  exact h

theorem bind_error {x : Except ε α} {f : α → Except ε β} {e : ε} (h : (x >>= f) = .error e) :
    x = .error e ∨ ∃ a, x = .ok a ∧ f a = .error e := by
  cases x with
  | error e' =>
    cases h
    exact .inl rfl
  | ok a => exact .inr ⟨a, rfl, h⟩

theorem map_ok_iff {x : Except ε α} {f : α → β} {b : β} :
    x.map f = .ok b ↔ ∃ a, x = .ok a ∧ b = f a := by
  cases x <;> simp [Except.map, eq_comm]

theorem mapError_ok {f : ε → ε'} {x : Except ε α} {a : α} (h : x.mapError f = .ok a) :
    x = .ok a := by
  cases x with
  | error e => cases h
  | ok a' =>
    cases h
    rfl

/-- What comes out of a traversal comes from something that went in. -/
theorem exists_of_mapM_ok {f : α → Except ε β} {xs : List α} {ys : List β}
    (h : xs.mapM f = .ok ys) {y : β} (hy : y ∈ ys) : ∃ x ∈ xs, f x = .ok y := by
  induction xs generalizing ys with
  | nil =>
    cases h
    cases hy
  | cons x rest ih =>
    rw [List.mapM_cons] at h
    obtain ⟨first, hfirst, h⟩ := bind_ok h
    obtain ⟨more, hmore, h⟩ := bind_ok h
    cases h
    rcases List.mem_cons.mp hy with rfl | hy
    · exact ⟨x, List.mem_cons_self .., hfirst⟩
    · obtain ⟨x', hx', hf⟩ := ih hmore hy
      exact ⟨x', List.mem_cons_of_mem _ hx', hf⟩

theorem exists_of_mapM_error {f : α → Except ε β} {xs : List α} {e : ε}
    (h : xs.mapM f = .error e) : ∃ x ∈ xs, f x = .error e := by
  induction xs with
  | nil => cases h
  | cons x rest ih =>
    rw [List.mapM_cons] at h
    rcases bind_error h with hfirst | ⟨first, -, h⟩
    · exact ⟨x, List.mem_cons_self .., hfirst⟩
    · rcases bind_error h with hmore | ⟨more, -, h⟩
      · obtain ⟨x', hx', hf⟩ := ih hmore
        exact ⟨x', List.mem_cons_of_mem _ hx', hf⟩
      · cases h

namespace Task
open FileSystem (Composes)

theorem run_bind_ok {t : Task ε α} {f : α → Task ε β} {s s' : Session} {b : β}
    (h : (t >>= f).run s = (.ok b, s')) :
    ∃ a between, t.run s = (.ok a, between) ∧ (f a).run between = (.ok b, s') := by
  rw [run_bind] at h
  rcases ht : t.run s with ⟨_ | a, between⟩
  · rw [ht] at h
    cases h
  · rw [ht] at h
    exact ⟨a, between, rfl, h⟩

/-- A task stops at its first part, or goes on after it. -/
theorem run_bind_cases (t : Task ε α) (f : α → Task ε β) (s : Session) :
    (∃ e between, t.run s = (.error e, between) ∧ (t >>= f).run s = (.error e, between)) ∨
      ∃ a between, t.run s = (.ok a, between) ∧ (t >>= f).run s = (f a).run between := by
  rw [run_bind]
  rcases t.run s with ⟨e | a, between⟩
  · exact .inl ⟨e, between, rfl, rfl⟩
  · exact .inr ⟨a, between, rfl, rfl⟩

theorem run_onFiles_ok {f : FileSystem → FileSystem.Outcome α} {means : FileError → ε}
    {s s' : Session} {a : α} (h : (onFiles f means).run s = (.ok a, s')) :
    (f s.files).1 = .ok a ∧ s' = { s with files := (f s.files).2 } := by
  rw [run_onFiles] at h
  rcases hf : (f s.files).1 with _ | a'
  · rw [hf] at h
    cases h
  · rw [hf] at h
    cases h
    exact ⟨rfl, rfl⟩

theorem run_onFiles_error {f : FileSystem → FileSystem.Outcome α} {means : FileError → ε}
    {s s' : Session} {e : ε} (h : (onFiles f means).run s = (.error e, s')) :
    (∃ e', (f s.files).1 = .error e') ∧ s'.files = (f s.files).2 := by
  rw [run_onFiles] at h
  rcases hf : (f s.files).1 with e' | _
  · rw [← (Prod.mk.inj h).2]
    exact ⟨⟨e', rfl⟩, rfl⟩
  · rw [hf] at h
    cases h

theorem run_pure_ok {a b : α} {s s' : Session} (h : (pure a : Task ε α).run s = (.ok b, s')) :
    b = a ∧ s' = s := by
  cases h
  exact ⟨rfl, rfl⟩

theorem run_note_ok {line : String} {u : Unit} {s s' : Session}
    (h : (note line : Task ε Unit).run s = (.ok u, s')) : s'.files = s.files := by
  cases h
  rfl

theorem run_ofExcept_ok {r : Except ε α} {s s' : Session} {a : α}
    (h : (ofExcept r).run s = (.ok a, s')) : r = .ok a ∧ s' = s := by
  cases h
  exact ⟨rfl, rfl⟩

theorem run_explain_ok {means : ε → ε'} {t : Task ε α} {s s' : Session} {a : α}
    (h : (explain means t).run s = (.ok a, s')) : t.run s = (.ok a, s') := by
  rw [run_explain] at h
  rcases ht : t.run s with ⟨_ | a', between⟩
  · rw [ht] at h
    cases h
  · rw [ht] at h
    cases h
    rfl

/-! ### What may happen to the files -/

/-- Whatever comes of a task, it moves the files as `R` says. -/
def Moves (R : FileSystem → FileSystem → Prop) (t : Task ε α) : Prop :=
  ∀ s, R s.files (t.run s).2.files

namespace Moves
variable {R : FileSystem → FileSystem → Prop} {t : Task ε α} {f : α → Task ε β}

/-- A task that leaves the files alone. -/
theorem still (hR : Composes R) (h : ∀ s, (t.run s).2.files = s.files) : Moves R t := by
  intro s
  rw [h s]
  exact hR.refl s.files

theorem pure (hR : Composes R) (a : α) : Moves R (pure a : Task ε α) := still hR fun _ => rfl

theorem throw (hR : Composes R) (e : ε) : Moves R (throw e : Task ε α) := still hR fun _ => rfl

theorem print (hR : Composes R) (line : String) : Moves R (print line : Task ε Unit) :=
  still hR fun _ => rfl

theorem note (hR : Composes R) (line : String) : Moves R (note line : Task ε Unit) :=
  still hR fun _ => rfl

theorem files (hR : Composes R) : Moves R (files : Task ε FileSystem) := still hR fun _ => rfl

theorem ofExcept (hR : Composes R) (r : Except ε α) : Moves R (ofExcept r) :=
  still hR fun _ => rfl

theorem onFiles {op : FileSystem → FileSystem.Outcome α} {means : FileError → ε}
    (h : ∀ fs, R fs (op fs).2) : Moves R (onFiles op means) := fun s => h s.files

theorem explain {means : ε → ε'} (h : Moves R t) : Moves R (explain means t) := h

theorem bind (hR : Composes R) (h : Moves R t) (hf : ∀ a, Moves R (f a)) : Moves R (t >>= f) := by
  intro s
  have hs := h s
  rw [run_bind]
  rcases ht : t.run s with ⟨_ | a, between⟩
  · rwa [ht] at hs
  · rw [ht] at hs
    exact hR.trans hs (hf a between)

/-- What goes on after an answer was found may rely on that answer. -/
theorem bind_ofExcept (hR : Composes R) {r : Except ε α} (hf : ∀ a, r = .ok a → Moves R (f a)) :
    Moves R (Task.ofExcept r >>= f) := by
  intro s
  rw [run_bind, run_ofExcept]
  rcases r with e | a
  · exact hR.refl s.files
  · exact hf a rfl s

end Moves

end Task
end StableWheel
