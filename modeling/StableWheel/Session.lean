import StableWheel.FileSystem.Operations

/-! What a command changes: files, what it prints, and which programs it starts.

A `Task` works on a session and either gives an answer or stops with an error; in both cases
the session shows everything that was done. `Task.run` is the view: each way to build a task
has one equation for it. -/
namespace StableWheel

/-- A program that was started, with its arguments. -/
structure Invocation where
  program : String
  arguments : List String
  deriving Repr, DecidableEq

/-- What a command has done so far. -/
structure Session where
  files : FileSystem
  /-- Printed lines, in order. -/
  printed : List String
  /-- Lines for those who want to see every step. -/
  notes : List String
  /-- Programs that were started, in order. -/
  started : List Invocation
  /-- Removals that the system refuses. -/
  refusals : FileSystem.Refusals

/-- The start of a session in which everything may be removed. -/
def Session.ofFiles (fs : FileSystem) : Session := ⟨fs, [], [], [], fun _ _ => none⟩

/-- Something that is done in a session. -/
abbrev Task (ε α : Type) := ExceptT ε (StateM Session) α

namespace Task
variable {ε ε' α β : Type}

/-- The answer or the error, and the session afterwards. -/
def run (t : Task ε α) (s : Session) : Except ε α × Session := (ExceptT.run t).run s

/-- A task by what it does. -/
def ofRun (f : Session → Except ε α × Session) : Task ε α := ExceptT.mk fun s => f s

/-- Prints a line. -/
def print (line : String) : Task ε Unit :=
  ofRun fun s => (.ok (), { s with printed := s.printed ++ [line] })

/-- A line for those who want to see every step. -/
def note (line : String) : Task ε Unit :=
  ofRun fun s => (.ok (), { s with notes := s.notes ++ [line] })

/-- The files as they are now. -/
def files : Task ε FileSystem := ofRun fun s => (.ok s.files, s)

/-- An operation on files, with the error it means. -/
def onFiles (f : FileSystem → FileSystem.Outcome α) (means : FileError → ε) : Task ε α :=
  ofRun fun s =>
    let (r, fs) := f s.files
    (r.mapError means, { s with files := fs })

/-- An answer or an error that was found without doing anything. -/
def ofExcept (r : Except ε α) : Task ε α := ofRun fun s => (r, s)

/-- A task with its error put in other terms. -/
def explain (means : ε → ε') (t : Task ε α) : Task ε' α :=
  ofRun fun s =>
    let (r, s) := t.run s
    (r.mapError means, s)

/-- A task that cannot stop the one it is part of. -/
def attempt (t : Task ε α) : Task ε' (Except ε α) :=
  ofRun fun s =>
    let (r, s) := t.run s
    (.ok r, s)

/-! ### The view -/

@[simp] theorem run_ofRun (f : Session → Except ε α × Session) (s : Session) :
    (ofRun f).run s = f s := rfl

@[simp] theorem run_pure (a : α) (s : Session) : (pure a : Task ε α).run s = (.ok a, s) := rfl

@[simp] theorem run_throw (e : ε) (s : Session) :
    (throw e : Task ε α).run s = (.error e, s) := rfl

@[simp] theorem run_print (line : String) (s : Session) :
    (print line : Task ε Unit).run s = (.ok (), { s with printed := s.printed ++ [line] }) := rfl

@[simp] theorem run_note (line : String) (s : Session) :
    (note line : Task ε Unit).run s = (.ok (), { s with notes := s.notes ++ [line] }) := rfl

@[simp] theorem run_files (s : Session) : (files : Task ε FileSystem).run s = (.ok s.files, s) :=
  rfl

@[simp] theorem run_onFiles (f : FileSystem → FileSystem.Outcome α) (means : FileError → ε)
    (s : Session) :
    (onFiles f means).run s =
      ((f s.files).1.mapError means, { s with files := (f s.files).2 }) := rfl

@[simp] theorem run_ofExcept (r : Except ε α) (s : Session) : (ofExcept r).run s = (r, s) := rfl

@[simp] theorem run_explain (means : ε → ε') (t : Task ε α) (s : Session) :
    (explain means t).run s = ((t.run s).1.mapError means, (t.run s).2) := rfl

@[simp] theorem run_attempt (t : Task ε α) (s : Session) :
    (attempt t : Task ε' (Except ε α)).run s = (.ok (t.run s).1, (t.run s).2) := rfl

theorem run_bind (t : Task ε α) (f : α → Task ε β) (s : Session) :
    (t >>= f).run s =
      match t.run s with
      | (.ok a, s) => (f a).run s
      | (.error e, s) => (.error e, s) := by
  simp only [run, ExceptT.run_bind]
  rcases h : (ExceptT.run t).run s with ⟨r, s'⟩
  cases r <;> simp [StateT.run_bind, h] <;> rfl

end Task
end StableWheel
