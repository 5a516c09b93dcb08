import StableWheel.Build.Pass
import StableWheel.Proofs.Compiler.Run

/-! What the toolchain is asked for, and what an attempt at the modules makes of its answers.

An attempt asks for the declared modules in order, up to the first answer that delivers
nothing. `buildExtensions_cases` says everything an attempt can come to: all modules are
delivered and remembered, or one is not, and then nothing is remembered and what came before
is removed. -/
namespace StableWheel.BuildPass

/-! ### Asking -/

/-- What is announced is printed at most. -/
theorem announce_files (b : BuildPass) (line : String) (s : Session) :
    (b.announce line s).files = s.files := by
  unfold announce
  split <;> rfl

/-- The answer of the toolchain to one more module, in a session where that is announced, and the
session it leaves, with a note of the answer. -/
def ask (t : Toolchain) (b : BuildPass) (spec : ExtensionSpec) (s : Session) :
    CompileResult × Session :=
  let called := t.compile b.requests.length spec b.context
    (b.announce ("running build_ext for " ++ spec.fullName) s)
  (called.1, noting (compiledNote called.1) called.2)

/-- A request is one call of the toolchain, and it is counted. -/
theorem request_eq (t : Toolchain) (b : BuildPass) (spec : ExtensionSpec) (s : Session) :
    request t b spec s = ((ask t b spec s).1, { b with requests := b.requests ++ [spec] },
      (ask t b spec s).2) := rfl

/-- Asks for modules one after the other, whatever the answers are. -/
def askEach (t : Toolchain) : List ExtensionSpec → BuildPass → Session →
    List CompileResult × Session
  | [], _, s => ([], s)
  | spec :: rest, b, s =>
    let (r, s) := ask t b spec s
    let (rs, s) := askEach t rest { b with requests := b.requests ++ [spec] } s
    (r :: rs, s)

/-- Asks for one more module after earlier ones. -/
def askAfter (t : Toolchain) (earlier : List ExtensionSpec) (b : BuildPass)
    (spec : ExtensionSpec) (s : Session) : CompileResult × Session :=
  ask t { b with requests := b.requests ++ earlier } spec (askEach t earlier b s).2

/-- What a pass has compiled or staged is of no account to the toolchain. -/
theorem ask_congr (t : Toolchain) (spec : ExtensionSpec) {b c : BuildPass} (s : Session)
    (hc : c.context = b.context) (hv : c.verbose = b.verbose)
    (hr : c.requests = b.requests) : ask t c spec s = ask t b spec s := by
  simp only [ask, announce, hc, hv, hr]

theorem askEach_cons (t : Toolchain) (spec : ExtensionSpec) (rest : List ExtensionSpec)
    (b : BuildPass) (s : Session) :
    askEach t (spec :: rest) b s =
      ((ask t b spec s).1 ::
          (askEach t rest { b with requests := b.requests ++ [spec] } (ask t b spec s).2).1,
        (askEach t rest { b with requests := b.requests ++ [spec] } (ask t b spec s).2).2) := rfl

theorem askEach_congr (t : Toolchain) (specs : List ExtensionSpec) {b c : BuildPass}
    (s : Session) (hc : c.context = b.context) (hv : c.verbose = b.verbose)
    (hr : c.requests = b.requests) : askEach t specs c s = askEach t specs b s := by
  induction specs generalizing b c s with
  | nil => rfl
  | cons spec rest ih =>
    have hrest : askEach t rest { c with requests := c.requests ++ [spec] } (ask t b spec s).2 =
        askEach t rest { b with requests := b.requests ++ [spec] } (ask t b spec s).2 :=
      ih _ hc hv (by rw [hr])
    rw [askEach_cons, askEach_cons, ask_congr t spec s hc hv hr, hrest]

/-- What was compiled so far does not change what the toolchain answers to the rest. -/
theorem askAfter_cons (t : Toolchain) (spec : ExtensionSpec) (earlier : List ExtensionSpec)
    {b c : BuildPass} (failing : ExtensionSpec) (s : Session) (hc : c.context = b.context)
    (hv : c.verbose = b.verbose) (hr : c.requests = b.requests ++ [spec]) :
    askAfter t (spec :: earlier) b failing s =
      askAfter t earlier c failing (ask t b spec s).2 := by
  have hrest : askEach t earlier c (ask t b spec s).2 =
      askEach t earlier { b with requests := b.requests ++ [spec] } (ask t b spec s).2 :=
    askEach_congr t earlier _ hc hv hr
  rw [askAfter, askAfter, hrest, askEach_cons]
  exact ask_congr t failing _ hc.symm hv.symm (by simp [hr])

/-- The steps that a pass has recorded are of no account to the toolchain either. -/
theorem askEach_steps (t : Toolchain) (specs : List ExtensionSpec) (b : BuildPass)
    (steps : List BuildStep) (s : Session) :
    askEach t specs { b with steps } s = askEach t specs b s :=
  askEach_congr t specs s rfl rfl rfl

theorem askAfter_steps (t : Toolchain) (earlier : List ExtensionSpec) (b : BuildPass)
    (steps : List BuildStep) (failing : ExtensionSpec) (s : Session) :
    askAfter t earlier { b with steps } failing s = askAfter t earlier b failing s := by
  rw [askAfter, askAfter, askEach_steps]
  exact ask_congr t failing _ rfl rfl rfl

theorem length_askEach (t : Toolchain) (specs : List ExtensionSpec) (b : BuildPass)
    (s : Session) : (askEach t specs b s).1.length = specs.length := by
  induction specs generalizing b s with
  | nil => rfl
  | cons spec rest ih => rw [askEach_cons, List.length_cons, List.length_cons, ih]

/-! ### One attempt -/

theorem compileEach_cons (t : Toolchain) (spec : ExtensionSpec) (rest : List ExtensionSpec)
    (b : BuildPass) (s : Session) :
    compileEach t (spec :: rest) b s =
      match (ask t b spec s).1.delivered with
      | some artifact =>
        compileEach t rest
          { b with requests := b.requests ++ [spec], artifacts := b.artifacts ++ [artifact] }
          (ask t b spec s).2
      | none =>
        (.error (failureOf (ask t b spec s).1),
          { b with requests := b.requests ++ [spec], artifacts := [] },
          discard b.artifacts (ask t b spec s).2) := by
  rw [compileEach, request_eq]
  dsimp only
  unfold CompileResult.delivered
  cases (ask t b spec s).1.success <;> cases (ask t b spec s).1.artifact <;> rfl

/-- An attempt that delivers every module: it remembers one artifact for each. -/
structure Delivers (t : Toolchain) (specs : List ExtensionSpec) (b : BuildPass) (s : Session)
    (o : Outcome) (artifacts : List Path) : Prop where
  answers : (askEach t specs b s).1.map CompileResult.delivered = artifacts.map some
  outcome : o = (.ok (),
    { b with
      requests := b.requests ++ specs
      artifacts := b.artifacts ++ artifacts
      compiled := true },
    (askEach t specs b s).2)

/-- An attempt that stops at a module: those before it were delivered, it was not, and no one
was asked for the rest. -/
structure Stops (t : Toolchain) (specs : List ExtensionSpec) (b : BuildPass) (s : Session)
    (o : Outcome) (earlier : List ExtensionSpec) (failing : ExtensionSpec)
    (artifacts : List Path) : Prop where
  split : ∃ rest, specs = earlier ++ failing :: rest
  answers : (askEach t earlier b s).1.map CompileResult.delivered = artifacts.map some
  refused : (askAfter t earlier b failing s).1.delivered = none
  outcome : o = (.error (failureOf (askAfter t earlier b failing s).1),
    { b with requests := b.requests ++ earlier ++ [failing], artifacts := [] },
    discard (b.artifacts ++ artifacts) (askAfter t earlier b failing s).2)

/-- An attempt comes to one of these two ends. -/
theorem compileEach_cases (t : Toolchain) (specs : List ExtensionSpec) (b : BuildPass)
    (s : Session) :
    (∃ artifacts, Delivers t specs b s (compileEach t specs b s) artifacts) ∨
      ∃ earlier failing artifacts,
        Stops t specs b s (compileEach t specs b s) earlier failing artifacts := by
  induction specs generalizing b s with
  | nil => exact .inl ⟨[], rfl, by simp [compileEach, askEach]⟩
  | cons spec rest ih =>
    rw [compileEach_cons]
    cases hd : (ask t b spec s).1.delivered with
    | none =>
      have hfirst : askAfter t [] b spec s = ask t b spec s :=
        ask_congr t spec s rfl rfl (List.append_nil _)
      refine .inr ⟨[], spec, [], ⟨rest, rfl⟩, rfl, by rw [hfirst, hd], ?_⟩
      rw [hfirst]
      simp
    | some artifact =>
      have hrest : ∀ specs, askEach t specs
            { b with requests := b.requests ++ [spec], artifacts := b.artifacts ++ [artifact] }
            (ask t b spec s).2 =
          askEach t specs { b with requests := b.requests ++ [spec] } (ask t b spec s).2 :=
        fun specs => askEach_congr t specs _ rfl rfl rfl
      dsimp only
      rcases ih
          { b with requests := b.requests ++ [spec], artifacts := b.artifacts ++ [artifact] }
          (ask t b spec s).2 with ⟨artifacts, hall⟩ | ⟨earlier, failing, artifacts, hstop⟩
      · refine .inl ⟨artifact :: artifacts, ?_, ?_⟩
        · rw [askEach_cons, ← hrest, List.map_cons, hall.answers, hd, List.map_cons]
        · rw [askEach_cons, ← hrest, hall.outcome]
          simp only [List.append_assoc, List.cons_append, List.nil_append]
      · obtain ⟨more, hsplit⟩ := hstop.split
        have hlast := askAfter_cons t spec earlier (b := b) failing s
          (c := { b with requests := b.requests ++ [spec], artifacts := b.artifacts ++ [artifact] })
          rfl rfl rfl
        refine .inr ⟨spec :: earlier, failing, artifact :: artifacts,
          ⟨more, by rw [hsplit, List.cons_append]⟩, ?_, ?_, ?_⟩
        · rw [askEach_cons, ← hrest, List.map_cons, hstop.answers, hd, List.map_cons]
        · rw [hlast]
          exact hstop.refused
        · rw [hlast, hstop.outcome]
          simp only [List.append_assoc, List.cons_append, List.nil_append]

/-- All that can come of asking a pass for its modules. -/
theorem buildExtensions_cases (t : Toolchain) (b : BuildPass) (s : Session) :
    (b.compiled = true ∧ buildExtensions t b s =
      (.ok (), b, noting "build_ext already ran in this pass, skipping" s)) ∨
    b.compiled = false ∧
      ((∃ e, verifySources s.files b.context.root b.extensions = .error e ∧
          buildExtensions t b s = (.error (.sources e), b, s)) ∨
        verifySources s.files b.context.root b.extensions = .ok () ∧
          ((∃ artifacts, Delivers t b.extensions { b with steps := b.steps ++ [.extensions] } s
              (buildExtensions t b s) artifacts) ∨
            ∃ earlier failing artifacts,
              Stops t b.extensions { b with steps := b.steps ++ [.extensions] } s
                (buildExtensions t b s) earlier failing artifacts)) := by
  unfold buildExtensions
  cases hc : b.compiled with
  | true => exact .inl ⟨rfl, rfl⟩
  | false =>
    refine .inr ⟨rfl, ?_⟩
    cases hv : verifySources s.files b.context.root b.extensions with
    | error e => exact .inl ⟨e, rfl, rfl⟩
    | ok _ => exact .inr ⟨rfl, compileEach_cases t b.extensions _ s⟩

/-- What it comes to when all modules are compiled: they were before, or they are now. -/
theorem buildExtensions_ok {t : Toolchain} {b b' : BuildPass} {s s' : Session} {u : Unit}
    (h : buildExtensions t b s = (.ok u, b', s')) :
    (b.compiled = true ∧ b' = b ∧ s'.files = s.files) ∨ ∃ artifacts,
      Delivers t b.extensions { b with steps := b.steps ++ [.extensions] } s (.ok u, b', s')
        artifacts := by
  rcases buildExtensions_cases t b s with ⟨hcompiled, ho⟩ |
      ⟨-, ⟨e, -, ho⟩ | ⟨-, ⟨artifacts, hd⟩ | ⟨earlier, failing, artifacts, hs⟩⟩⟩
  · rw [ho] at h
    cases h
    exact .inl ⟨hcompiled, rfl, rfl⟩
  · rw [ho] at h
    cases h
  · rw [h] at hd
    exact .inr ⟨artifacts, hd⟩
  · have hend := hs.outcome
    rw [h] at hend
    cases hend

/-- Modules that were not compiled before are compiled now. -/
theorem buildExtensions_delivers {t : Toolchain} {b b' : BuildPass} (hfresh : b.compiled = false)
    {s s' : Session} {u : Unit} (h : buildExtensions t b s = (.ok u, b', s')) :
    ∃ artifacts, Delivers t b.extensions { b with steps := b.steps ++ [.extensions] } s
      (.ok u, b', s') artifacts := by
  refine (buildExtensions_ok h).resolve_left fun hskipped => ?_
  rw [hfresh] at hskipped
  cases hskipped.1

end StableWheel.BuildPass
