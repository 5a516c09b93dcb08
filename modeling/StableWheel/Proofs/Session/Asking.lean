import StableWheel.Host
import StableWheel.Proofs.Session.Effects

/-! Tasks that only ask.

What comes of such a task is up to the files that it finds, not to what was printed or started
before, and it starts no other programs than it may (`Asks`). A task that is made of such parts is
one itself. So its answer can be given without a session (`answer`), and where a part leaves the
files alone, the next one is answered from the same files (`Gives.bind`). -/
namespace StableWheel

variable {ε ε' α β : Type}

namespace Task

/-- What a task answers that is begun on these files, or why it does not. -/
def answer (t : Task ε α) (fs : FileSystem) : Except ε α := (t.run (.ofFiles fs)).1

/-- What comes of a task is up to the files that it finds, the programs that it starts are those that
it may start, and it prints nothing. -/
structure Asks (may : Invocation → Prop) (t : Task ε α) : Prop where
  answers : ∀ {s s' : Session}, s.files = s'.files → (t.run s).1 = (t.run s').1
  leaves : ∀ {s s' : Session}, s.files = s'.files → (t.run s).2.files = (t.run s').2.files
  starts : ∀ s, ∃ more, (t.run s).2.started = s.started ++ more ∧ ∀ i ∈ more, may i
  silent : ∀ s, (t.run s).2.printed = s.printed

namespace Asks
variable {may : Invocation → Prop} {t : Task ε α} {f : α → Task ε β}

/-- A task that does nothing, but for notes. -/
theorem idle (hanswer : ∀ {s s' : Session}, s.files = s'.files → (t.run s).1 = (t.run s').1)
    (hidle : ∀ s, ∃ notes, (t.run s).2 = { s with notes }) : Asks may t where
  answers := hanswer
  leaves {s s'} hsame := by
    obtain ⟨_, hs⟩ := hidle s
    obtain ⟨_, hs'⟩ := hidle s'
    rw [hs, hs']
    exact hsame
  starts s := by
    obtain ⟨_, hs⟩ := hidle s
    exact ⟨[], by rw [hs, List.append_nil], fun _ hi => by cases hi⟩
  silent s := by
    obtain ⟨_, hs⟩ := hidle s
    rw [hs]

theorem pure (a : α) : Asks may (pure a : Task ε α) := idle (fun _ => rfl) fun _ => ⟨_, rfl⟩

theorem throw (e : ε) : Asks may (throw e : Task ε α) := idle (fun _ => rfl) fun _ => ⟨_, rfl⟩

theorem note (line : String) : Asks may (note line : Task ε Unit) :=
  idle (fun _ => rfl) fun _ => ⟨_, rfl⟩

theorem files : Asks may (Task.files : Task ε FileSystem) :=
  idle (fun hsame => congrArg Except.ok hsame) fun _ => ⟨_, rfl⟩

theorem ofExcept (r : Except ε α) : Asks may (ofExcept r) := idle (fun _ => rfl) fun _ => ⟨_, rfl⟩

theorem explain {means : ε → ε'} (h : Asks may t) : Asks may (explain means t) where
  answers hsame := congrArg (Except.mapError means) (h.answers hsame)
  leaves hsame := h.leaves hsame
  starts := h.starts
  silent := h.silent

theorem attempt (h : Asks may t) : Asks may (attempt t : Task ε' (Except ε α)) where
  answers hsame := congrArg Except.ok (h.answers hsame)
  leaves hsame := h.leaves hsame
  starts := h.starts
  silent := h.silent

theorem bind (h : Asks may t) (hf : ∀ a, Asks may (f a)) : Asks may (t >>= f) := by
  -- two runs of the first part end alike, so that the second part finds the same files
  have hruns : ∀ {s s' : Session}, s.files = s'.files →
      (∃ e left left', t.run s = (.error e, left) ∧ t.run s' = (.error e, left') ∧
        left.files = left'.files) ∨
      ∃ a left left', t.run s = (.ok a, left) ∧ t.run s' = (.ok a, left') ∧
        left.files = left'.files := by
    intro s s' hsame
    have hanswer := h.answers hsame
    have hfiles := h.leaves hsame
    rcases ht : t.run s with ⟨e | a, left⟩ <;> rcases ht' : t.run s' with ⟨e' | a', left'⟩ <;>
      rw [ht, ht'] at hanswer hfiles <;> cases hanswer
    · exact .inl ⟨e, left, left', rfl, rfl, hfiles⟩
    · exact .inr ⟨a, left, left', rfl, rfl, hfiles⟩
  refine ⟨fun {s s'} hsame => ?_, fun {s s'} hsame => ?_, fun s => ?_, fun s => ?_⟩
  · rw [run_bind, run_bind]
    rcases hruns hsame with ⟨e, _, _, ht, ht', -⟩ | ⟨a, _, _, ht, ht', hleft⟩ <;> rw [ht, ht']
    exact (hf a).answers hleft
  · rw [run_bind, run_bind]
    rcases hruns hsame with ⟨e, _, _, ht, ht', hleft⟩ | ⟨a, _, _, ht, ht', hleft⟩ <;> rw [ht, ht']
    · exact hleft
    · exact (hf a).leaves hleft
  · obtain ⟨more, hmore, hmay⟩ := h.starts s
    rw [run_bind]
    rcases ht : t.run s with ⟨e | a, left⟩ <;> rw [ht] at hmore
    · exact ⟨more, hmore, hmay⟩
    · obtain ⟨further, hfurther, hmay'⟩ := (hf a).starts left
      refine ⟨more ++ further, ?_, fun i hi => (List.mem_append.mp hi).elim (hmay i) (hmay' i)⟩
      rw [← List.append_assoc, ← hmore]
      exact hfurther
  · have hsilent := h.silent s
    rw [run_bind]
    rcases ht : t.run s with ⟨e | a, left⟩ <;> rw [ht] at hsilent
    · exact hsilent
    · exact ((hf a).silent left).trans hsilent

theorem start {h : Host} {program : String} {arguments : List String}
    (hmay : may ⟨program, arguments⟩) : Asks may (h.start program arguments) := by
  refine ⟨fun {s s'} hsame => ?_, fun {s s'} hsame => ?_, fun s => ?_, fun s => ?_⟩
  · rw [Host.start, run_ofRun, run_ofRun, hsame]
    cases h.startable s'.files program arguments <;> rfl
  · rw [Host.start, run_ofRun, run_ofRun, hsame]
    cases h.startable s'.files program arguments
    · exact hsame
    · rfl
  · rw [Host.start, run_ofRun]
    cases h.startable s.files program arguments with
    | error e => exact ⟨[], (List.append_nil _).symm, fun _ hi => by cases hi⟩
    | ok place =>
      exact ⟨[⟨program, arguments⟩], rfl, fun i hi => by rw [List.mem_singleton.mp hi]; exact hmay⟩
  · rw [Host.start, run_ofRun]
    cases h.startable s.files program arguments <;> rfl

end Asks

/-! ### Failures -/

/-- Whatever a task stops with is of this kind. -/
def Blames (kind : ε → Prop) (t : Task ε α) : Prop :=
  ∀ s e, (t.run s).1 = .error e → kind e

namespace Blames
variable {kind : ε → Prop} {t : Task ε α} {f : α → Task ε β}

theorem pure (a : α) : Blames kind (pure a : Task ε α) := fun _ _ he => by cases he

theorem note (line : String) : Blames kind (note line : Task ε Unit) := fun _ _ he => by cases he

theorem files : Blames kind (files : Task ε FileSystem) := fun _ _ he => by cases he

theorem mapped {means : ε' → ε} (h : ∀ e, kind (means e)) {r : Except ε' α} {e : ε}
    (he : r.mapError means = .error e) : kind e := by
  cases r with
  | error e' =>
    cases he
    exact h e'
  | ok a => cases he

theorem ofExcept {means : ε' → ε} {r : Except ε' α} (h : ∀ e, kind (means e)) :
    Blames kind (ofExcept (r.mapError means)) := fun _ _ he => mapped h he

theorem explain {means : ε' → ε} {t : Task ε' α} (h : ∀ e, kind (means e)) :
    Blames kind (explain means t) := fun _ _ he => mapped h he

theorem bind (h : Blames kind t) (hf : ∀ a, Blames kind (f a)) : Blames kind (t >>= f) := by
  intro s e he
  have hs := h s
  rw [run_bind] at he
  rcases ht : t.run s with ⟨e' | a, left⟩ <;> rw [ht] at he hs
  · cases he
    exact hs _ rfl
  · exact hf a left e he

end Blames

/-! ### Answers -/

/-- What a task answers on these files, whatever was done before. -/
def Gives (t : Task ε α) (fs : FileSystem) (r : Except ε α) : Prop :=
  ∀ s : Session, s.files = fs → (t.run s).1 = r

theorem Asks.gives {may : Invocation → Prop} {t : Task ε α} (h : Asks may t) (fs : FileSystem) :
    Gives t fs (t.answer fs) := fun _ hs => h.answers hs

namespace Gives
variable {t : Task ε α} {f : α → Task ε β} {fs : FileSystem} {r : Except ε α}
  {g : α → Except ε β}

theorem pure (a : α) : Gives (pure a : Task ε α) fs (.ok a) := fun _ _ => rfl

theorem ofExcept (r : Except ε α) : Gives (ofExcept r) fs r := fun _ _ => rfl

theorem explain {means : ε → ε'} (h : Gives t fs r) :
    Gives (explain means t) fs (r.mapError means) := fun s hs => congrArg (Except.mapError means) (h s hs)

theorem bind_files {f : FileSystem → Task ε β} {r : Except ε β} (h : Gives (f fs) fs r) :
    Gives (files >>= f) fs r := by
  intro s hs
  rw [run_bind, run_files, hs]
  exact h s hs

theorem bind_note {line : String} {f : Unit → Task ε β} {r : Except ε β}
    (h : Gives (f ()) fs r) : Gives (note line >>= f) fs r := by
  intro s hs
  rw [run_bind, run_note]
  exact h _ hs

/-- What comes after a part that leaves the files alone is answered from the same files. -/
theorem bind (h : Gives t fs r) (hstill : ∀ s, (t.run s).2.files = s.files)
    (hf : ∀ a, Gives (f a) fs (g a)) : Gives (t >>= f) fs (r >>= g) := by
  intro s hs
  have hr := h s hs
  have hleft := (hstill s).trans hs
  rw [run_bind]
  rcases ht : t.run s with ⟨e | a, left⟩ <;> rw [ht] at hr hleft <;> rw [← hr]
  · rfl
  · exact hf a left hleft

/-- What comes last may look at nothing but the answer before it. -/
theorem bind_blind (h : Gives t fs r) (hf : ∀ a s, ((f a).run s).1 = g a) :
    Gives (t >>= f) fs (r >>= g) := by
  intro s hs
  have hr := h s hs
  rw [run_bind]
  rcases ht : t.run s with ⟨e | a, left⟩ <;> rw [ht] at hr <;> rw [← hr]
  · rfl
  · exact hf a left

end Gives

end Task
end StableWheel
