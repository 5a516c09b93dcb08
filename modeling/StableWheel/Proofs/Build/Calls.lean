import StableWheel.Proofs.Build.Requests

/-! What a pass remembers, whatever is asked of it and in whatever order.

A caller may run a pass, compile its modules or stage its packages, any number of times, and
between two calls the files may change in any way. A call comes down to one or two attempts,
and all that a pass remembers follows from the attempts behind it.

`reached_lawful` says what holds in every state that a caller can bring about: modules are
remembered all together or not at all, a success is final, steps are only ever appended, and
a failure leaves nothing behind but the steps. -/
namespace StableWheel.BuildPass

/-! ### Calls and attempts -/

/-- What a caller can ask of a pass. -/
inductive Call where
  | run
  | extensions
  | packages
  deriving Repr, DecidableEq

/-- What comes of a call. -/
def Call.outcome (t : Toolchain) (b : BuildPass) (s : Session) : Call → Outcome
  | run => b.run t s
  | extensions => buildExtensions t b s
  | packages => buildPackages b s

/-- A try at one step, with the pass and the session that it started from. -/
structure Attempt where
  step : BuildStep
  pass : BuildPass
  session : Session

namespace Attempt

def outcome (t : Toolchain) (a : Attempt) : Outcome :=
  match a.step with
  | .extensions => buildExtensions t a.pass a.session
  | .packages => buildPackages a.pass a.session

def Succeeds (t : Toolchain) (a : Attempt) : Prop := (a.outcome t).1 = .ok ()

/-- The files that an attempt staged, if it staged packages and went well. -/
def files (a : Attempt) : List Path :=
  match a.step with
  | .extensions => []
  | .packages =>
    match ((a.pass.layout.stage a.pass.context.root a.pass.context.buildLib).run
        (a.pass.announce "running build_py" a.session)).1 with
    | .ok files => files
    | .error _ => []

end Attempt

/-- Whether the modules were compiled in one of these attempts. -/
def Built (t : Toolchain) (as : List Attempt) : Prop :=
  ∃ a ∈ as, a.step = .extensions ∧ a.Succeeds t

/-- The attempts that a call comes down to. A run stops after its first failure. -/
def Call.attempts (t : Toolchain) (b : BuildPass) (s : Session) : Call → List Attempt
  | extensions => [⟨.extensions, b, s⟩]
  | packages => [⟨.packages, b, s⟩]
  | run =>
    if b.hasExtensions then
      match buildExtensions t b s with
      | (.ok _, b', s') => [⟨.extensions, b, s⟩, ⟨.packages, b', s'⟩]
      | _ => [⟨.extensions, b, s⟩]
    else [⟨.packages, b, s⟩]

/-- The pass after calls, each of them made in a session of its own. -/
def after (t : Toolchain) (b : BuildPass) : List (Call × Session) → BuildPass
  | [] => b
  | (c, s) :: rest => after t (c.outcome t b s).2.1 rest

/-- The attempts behind calls, in order. -/
def attempts (t : Toolchain) (b : BuildPass) : List (Call × Session) → List Attempt
  | [] => []
  | (c, s) :: rest => c.attempts t b s ++ attempts t (c.outcome t b s).2.1 rest

/-- Attempts that lead from one pass to another. -/
inductive Leads (t : Toolchain) : BuildPass → List Attempt → BuildPass → Prop where
  | nil {b} : Leads t b [] b
  | snoc {b as} (a : Attempt) : Leads t b as a.pass → Leads t b (as ++ [a]) (a.outcome t).2.1

theorem Leads.append {t : Toolchain} {b b' b'' : BuildPass} {as as' : List Attempt}
    (h : Leads t b as b') (h' : Leads t b' as' b'') : Leads t b (as ++ as') b'' := by
  induction h' with
  | nil => rwa [List.append_nil]
  | snoc a _ ih =>
    rw [← List.append_assoc]
    exact .snoc a ih

/-- One attempt on its own. -/
theorem Leads.one {t : Toolchain} (a : Attempt) : Leads t a.pass [a] (a.outcome t).2.1 :=
  .snoc a .nil

/-! ### What a run comes down to -/

theorem run_without_extensions {t : Toolchain} {b : BuildPass} {s : Session} (h : b.hasExtensions = false) :
    b.run t s = buildPackages b s := by
  simp [run, h]

theorem run_built {t : Toolchain} {b b' : BuildPass} {s s' : Session} {u : Unit}
    (h : b.hasExtensions = true) (ho : buildExtensions t b s = (.ok u, b', s')) :
    b.run t s = buildPackages b' s' := by
  simp [run, h, ho]

theorem run_stopped {t : Toolchain} {b b' : BuildPass} {s s' : Session} {e : BuildError}
    (h : b.hasExtensions = true) (ho : buildExtensions t b s = (.error e, b', s')) :
    b.run t s = (.error e, b', s') := by
  simp [run, h, ho]

theorem call_leads (t : Toolchain) (b : BuildPass) (s : Session) (c : Call) :
    Leads t b (c.attempts t b s) (c.outcome t b s).2.1 := by
  cases c with
  | extensions => exact Leads.one ⟨.extensions, b, s⟩
  | packages => exact Leads.one ⟨.packages, b, s⟩
  | run =>
    cases he : b.hasExtensions
    · simp only [Call.attempts, Call.outcome, he, run_without_extensions he]
      exact Leads.one ⟨.packages, b, s⟩
    · have hext := Leads.one (t := t) ⟨.extensions, b, s⟩
      simp only [Attempt.outcome] at hext
      rcases ho : buildExtensions t b s with ⟨_ | _, b', s'⟩
      · simp only [Call.attempts, Call.outcome, he, if_true, ho, run_stopped he ho]
        rw [ho] at hext
        exact hext
      · simp only [Call.attempts, Call.outcome, he, if_true, ho, run_built he ho]
        rw [ho] at hext
        exact hext.append (Leads.one ⟨.packages, b', s'⟩)

theorem after_leads (t : Toolchain) (b : BuildPass) (calls : List (Call × Session)) :
    Leads t b (attempts t b calls) (after t b calls) := by
  induction calls generalizing b with
  | nil => exact .nil
  | cons call rest ih => exact (call_leads t b call.2 call.1).append (ih _)

/-! ### What one attempt changes -/

theorem packages_pass (b : BuildPass) (s : Session) :
    (buildPackages b s).2.1 =
      { b with
        steps := b.steps ++ [.packages]
        staged := b.staged ++ (Attempt.mk .packages b s).files } := by
  unfold buildPackages Attempt.files
  dsimp only
  rcases (b.layout.stage b.context.root b.context.buildLib).run
    (b.announce "running build_py" s) with ⟨_ | _, _⟩ <;> simp

theorem built_snoc (t : Toolchain) (as : List Attempt) (a : Attempt) :
    Built t (as ++ [a]) ↔ Built t as ∨ a.step = .extensions ∧ a.Succeeds t := by
  simp [Built, or_and_right, exists_or]

/-- The attempts up to one of them, when there is one more. -/
theorem prefix_snoc {before as : List Attempt} {a x : Attempt}
    (h : before ++ [a] <+: as ++ [x]) : before = as ∧ a = x ∨ before ++ [a] <+: as := by
  rcases List.prefix_concat_iff.mp h with heq | hpre
  · obtain ⟨hbefore, ha⟩ := List.append_inj' heq rfl
    exact .inl ⟨hbefore, by simpa using ha⟩
  · exact .inr hpre

/-- What a pass remembers of the attempts behind it, beginning with the pass `start`. -/
structure Remembers (t : Toolchain) (start : BuildPass) (as : List Attempt) (p : BuildPass) :
    Prop where
  plan : p.context = start.context ∧ p.extensions = start.extensions ∧ p.layout = start.layout ∧
    p.verbose = start.verbose
  compiled : p.compiled = true ↔ Built t as
  unbuilt : ¬ Built t as → p.artifacts = []
  /-- The answers that count are those to the first attempt that went well. -/
  built : ∀ before a, before ++ [a] <+: as → ¬ Built t before → a.step = .extensions →
    a.Succeeds t →
    (askEach t p.extensions a.pass a.session).1.map CompileResult.delivered =
      p.artifacts.map some
  complete : Built t as → p.artifacts.length = p.extensions.length
  staged : p.staged = as.flatMap Attempt.files

theorem remembers_fresh (t : Toolchain) (context : CompileContext)
    (extensions : List ExtensionSpec) (layout : PackageLayout) (verbose : Bool) :
    Remembers t (fresh context extensions layout verbose) []
      (fresh context extensions layout verbose) where
  plan := ⟨rfl, rfl, rfl, rfl⟩
  compiled := by simp [fresh, Built]
  unbuilt _ := rfl
  built before a h := by simp at h
  complete h := by simp [Built] at h
  staged := rfl

variable {t : Toolchain} {start : BuildPass} {as : List Attempt}

theorem remembers_packages {a : Attempt} (ha : a.step = .packages)
    (h : Remembers t start as a.pass) : Remembers t start (as ++ [a]) (a.outcome t).2.1 := by
  obtain ⟨step, p, s⟩ := a
  subst ha
  replace h : Remembers t start as p := h
  have hb : Built t (as ++ [⟨.packages, p, s⟩]) ↔ Built t as := by simp [built_snoc]
  simp only [Attempt.outcome, packages_pass]
  refine ⟨h.plan, by rw [hb]; exact h.compiled, by rw [hb]; exact h.unbuilt, ?_,
    by rw [hb]; exact h.complete, ?_⟩
  · intro before a hpre hnot hstep hgood
    rcases prefix_snoc hpre with ⟨-, rfl⟩ | hpre
    · cases hstep
    · exact h.built before a hpre hnot hstep hgood
  · simp [h.staged]

theorem remembers_extensions {a : Attempt} (ha : a.step = .extensions)
    (h : Remembers t start as a.pass) : Remembers t start (as ++ [a]) (a.outcome t).2.1 := by
  obtain ⟨step, p, s⟩ := a
  subst ha
  replace h : Remembers t start as p := h
  have hsucc : Attempt.Succeeds t ⟨.extensions, p, s⟩ ↔ (buildExtensions t p s).1 = .ok () := .rfl
  have hstaged : p.staged = (as ++ [Attempt.mk .extensions p s]).flatMap Attempt.files := by
    simp [h.staged, Attempt.files]
  show Remembers t start _ (buildExtensions t p s).2.1
  rcases buildExtensions_cases t p s with ⟨hc, ho⟩ |
      ⟨hc, ⟨e, -, ho⟩ | ⟨-, ⟨artifacts, hd⟩ | ⟨earlier, failing, artifacts, hs⟩⟩⟩
  · -- the modules were compiled before, so this is not the attempt that counts
    have hb : Built t as := h.compiled.mp hc
    have hb' : Built t (as ++ [⟨.extensions, p, s⟩]) := (built_snoc ..).mpr (.inl hb)
    rw [ho]
    refine ⟨h.plan, ⟨fun _ => hb', fun _ => hc⟩, fun hn => absurd hb' hn, ?_,
      fun _ => h.complete hb, hstaged⟩
    intro before x hpre hnot hstep hgood
    rcases prefix_snoc hpre with ⟨rfl, -⟩ | hpre
    · exact absurd hb hnot
    · exact h.built before x hpre hnot hstep hgood
  · have hnot : ¬ Built t as := by rw [← h.compiled, hc]; simp
    have hnot' : ¬ Built t (as ++ [⟨.extensions, p, s⟩]) := by
      rw [built_snoc, hsucc, ho]; simp [hnot]
    rw [ho]
    refine ⟨h.plan, by simp [hc, hnot'], fun _ => h.unbuilt hnot, ?_,
      fun hb => absurd hb hnot', hstaged⟩
    intro before x hpre _ hstep hgood
    exact absurd ⟨x, hpre.subset (by simp), hstep, hgood⟩ hnot'
  · have hnot : ¬ Built t as := by rw [← h.compiled, hc]; simp
    have hb' : Built t (as ++ [⟨.extensions, p, s⟩]) := by
      rw [built_snoc, hsucc, hd.outcome]; exact .inr ⟨rfl, rfl⟩
    rw [hd.outcome]
    refine ⟨h.plan, by simp [hb'], fun hn => absurd hb' hn, ?_, fun _ => ?_, hstaged⟩
    · intro before x hpre hnot' hstep hgood
      rcases prefix_snoc hpre with ⟨-, rfl⟩ | hpre
      · have hask := askEach_steps t p.extensions p (p.steps ++ [.extensions]) s
        rw [h.unbuilt hnot, List.nil_append, ← hd.answers, hask]
      · exact absurd ⟨x, hpre.subset (by simp), hstep, hgood⟩ hnot
    · have hlen := congrArg List.length hd.answers
      simp only [List.length_map, length_askEach] at hlen
      simp [h.unbuilt hnot, hlen]
  · have hnot : ¬ Built t as := by rw [← h.compiled, hc]; simp
    have hnot' : ¬ Built t (as ++ [⟨.extensions, p, s⟩]) := by
      rw [built_snoc, hsucc, hs.outcome]; simp [hnot]
    rw [hs.outcome]
    refine ⟨h.plan, by simp [hc, hnot'], fun _ => rfl, ?_,
      fun hb => absurd hb hnot', hstaged⟩
    intro before x hpre _ hstep hgood
    exact absurd ⟨x, hpre.subset (by simp), hstep, hgood⟩ hnot'

theorem leads_remembers {p : BuildPass} (h : Leads t start as p)
    (h0 : Remembers t start [] start) : Remembers t start as p := by
  induction h with
  | nil => exact h0
  | snoc a _ ih =>
    cases ha : a.step with
    | extensions => exact remembers_extensions ha ih
    | packages => exact remembers_packages ha ih

theorem reached_remembers (t : Toolchain) (context : CompileContext)
    (extensions : List ExtensionSpec) (layout : PackageLayout) (verbose : Bool)
    (calls : List (Call × Session)) :
    Remembers t (fresh context extensions layout verbose)
      (attempts t (fresh context extensions layout verbose) calls)
      (after t (fresh context extensions layout verbose) calls) :=
  leads_remembers (after_leads t _ calls)
    (remembers_fresh t context extensions layout verbose)

/-! ### What any further call does -/

theorem steps_buildExtensions (t : Toolchain) (b : BuildPass) (s : Session) :
    (buildExtensions t b s).2.1.steps = b.steps ∨
      (buildExtensions t b s).2.1.steps = b.steps ++ [.extensions] := by
  rcases buildExtensions_cases t b s with ⟨-, ho⟩ |
      ⟨-, ⟨e, -, ho⟩ | ⟨-, ⟨artifacts, hd⟩ | ⟨earlier, failing, artifacts, hs⟩⟩⟩
  · exact .inl (by rw [ho])
  · exact .inl (by rw [ho])
  · exact .inr (by rw [hd.outcome])
  · exact .inr (by rw [hs.outcome])

/-- A run either stops where compiling stopped or adds the packages to it. -/
theorem steps_run (t : Toolchain) (b : BuildPass) (s : Session) (h : b.hasExtensions = true) :
    ((buildExtensions t b s).1 ≠ .ok () ∧
        (b.run t s).2.1.steps = (buildExtensions t b s).2.1.steps) ∨
      ((buildExtensions t b s).1 = .ok () ∧
        (b.run t s).2.1.steps = (buildExtensions t b s).2.1.steps ++ [.packages]) := by
  rcases ho : buildExtensions t b s with ⟨_ | _, b', s'⟩
  · exact .inl ⟨by simp, by rw [run_stopped h ho]⟩
  · exact .inr ⟨rfl, by rw [run_built h ho, packages_pass]⟩

theorem steps_grow (t : Toolchain) (b : BuildPass) (s : Session) (c : Call) :
    b.steps <+: (c.outcome t b s).2.1.steps := by
  have hext : b.steps <+: (buildExtensions t b s).2.1.steps := by
    rcases steps_buildExtensions t b s with h | h <;> simp [h]
  cases c with
  | extensions => exact hext
  | packages => simp [Call.outcome, packages_pass]
  | run =>
    cases he : b.hasExtensions
    · simp [Call.outcome, run_without_extensions he, packages_pass]
    · rcases steps_run t b s he with ⟨-, h⟩ | ⟨-, h⟩
      · rw [Call.outcome, h]; exact hext
      · rw [Call.outcome, h]; exact hext.trans (List.prefix_append ..)

/-- Once its modules are compiled, a pass has no more use for a toolchain. -/
theorem outcome_of_compiled (t t' : Toolchain) (b : BuildPass) (s : Session)
    (h : b.compiled = true) (c : Call) : c.outcome t' b s = c.outcome t b s := by
  cases c <;> simp [Call.outcome, run, buildExtensions, h]

theorem pass_of_compiled (t : Toolchain) (b : BuildPass) (s : Session) (h : b.compiled = true)
    (c : Call) : ∃ n staged, (c.outcome t b s).2.1 =
      { b with steps := b.steps ++ List.replicate n .packages, staged } := by
  have ho : buildExtensions t b s =
      (.ok (), b, noting "build_ext already ran in this pass, skipping" s) := by
    simp [buildExtensions, h]
  cases c with
  | extensions => exact ⟨0, b.staged, by rw [Call.outcome, ho]; simp⟩
  | packages => exact ⟨1, _, by rw [Call.outcome, packages_pass]; rfl⟩
  | run =>
    cases he : b.hasExtensions
    · exact ⟨1, _, by rw [Call.outcome, run_without_extensions he, packages_pass]; rfl⟩
    · exact ⟨1, _, by rw [Call.outcome, run_built he ho, packages_pass]; rfl⟩

/-! ### In every state -/

/-- What holds of a pass `p` with the attempts `as` behind it, and of whatever is asked of it
next. The requests are the toolchain's side of a pass; all other fields are its memory. -/
structure Lawful (t : Toolchain) (start : BuildPass) (as : List Attempt) (p : BuildPass) : Prop
    extends Remembers t start as p where
  settled : Built t as → ∀ (c : Call) (s : Session),
    (∃ n staged, (c.outcome t p s).2.1 =
      { p with steps := p.steps ++ List.replicate n .packages, staged }) ∧
    ∀ t' : Toolchain, c.outcome t' p s = c.outcome t p s
  growing : ∀ (c : Call) (s : Session), p.steps <+: (c.outcome t p s).2.1.steps
  ordered : p.hasExtensions = true → ∀ s new, (p.run t s).2.1.steps = p.steps ++ new →
    BuildStep.packages ∈ new → Attempt.Succeeds t ⟨.extensions, p, s⟩ ∧
      ∃ first, new = first ++ [.packages] ∧
        (buildExtensions t p s).2.1.steps = p.steps ++ first
  failed : ∀ s e, (buildExtensions t p s).1 = .error e →
    ∃ steps requests, (buildExtensions t p s).2.1 = { p with steps, requests }
  again : ¬ Built t as → ∀ s,
    verifySources s.files p.context.root p.extensions = .ok () →
    ∃ n, (buildExtensions t p s).2.1.requests = p.requests ++ p.extensions.take n ∧
      (p.extensions ≠ [] → 0 < n) ∧
      (Attempt.Succeeds t ⟨.extensions, p, s⟩ → p.extensions.length ≤ n)

theorem Remembers.lawful {p : BuildPass} (h : Remembers t start as p) :
    Lawful t start as p where
  toRemembers := h
  settled hb c s :=
    ⟨pass_of_compiled t p s (h.compiled.mpr hb) c,
      fun t' => outcome_of_compiled t t' p s (h.compiled.mpr hb) c⟩
  growing c s := steps_grow t p s c
  ordered he s new hnew hmem := by
    have hno : ∀ first, (buildExtensions t p s).2.1.steps = p.steps ++ first →
        BuildStep.packages ∉ first := by
      intro first hfirst
      rcases steps_buildExtensions t p s with hs | hs <;> rw [hs] at hfirst
      · rw [List.self_eq_append_right.mp hfirst]
        simp
      · rw [← List.append_cancel_left hfirst]
        simp
    obtain ⟨first, hfirst⟩ := steps_grow t p s .extensions
    replace hfirst : p.steps ++ first = (buildExtensions t p s).2.1.steps := hfirst
    rcases steps_run t p s he with ⟨-, hs⟩ | ⟨hok, hs⟩
    · exact absurd hmem (hno new (by rw [← hs, hnew]))
    · refine ⟨hok, first, ?_, hfirst.symm⟩
      rw [hnew, ← hfirst, List.append_assoc] at hs
      exact List.append_cancel_left hs
  failed s e he := by
    rcases buildExtensions_cases t p s with ⟨-, ho⟩ |
        ⟨hc, ⟨e, -, ho⟩ | ⟨-, ⟨artifacts, hd⟩ | ⟨earlier, failing, artifacts, hs⟩⟩⟩
    · rw [ho] at he; cases he
    · exact ⟨p.steps, p.requests, by rw [ho]⟩
    · rw [hd.outcome] at he; cases he
    · have hnone : p.artifacts = [] := h.unbuilt (by rw [← h.compiled, hc]; simp)
      exact ⟨_, _, by rw [hs.outcome, ← hnone]⟩
  again hnot s hv := by
    have hc : p.compiled = false := by
      rw [← Bool.not_eq_true, h.compiled]
      exact hnot
    rcases buildExtensions_cases t p s with ⟨hc', -⟩ |
        ⟨-, ⟨e, hv', -⟩ | ⟨-, ⟨artifacts, hd⟩ | ⟨earlier, failing, artifacts, hs⟩⟩⟩
    · rw [hc] at hc'; cases hc'
    · rw [hv] at hv'; cases hv'
    · refine ⟨p.extensions.length, ?_, List.length_pos_iff.mpr, fun _ => Nat.le_refl _⟩
      rw [hd.outcome, List.take_length]
    · obtain ⟨rest, hsplit⟩ := hs.split
      refine ⟨earlier.length + 1, ?_, fun _ => Nat.succ_pos _, fun hok => ?_⟩
      · rw [hs.outcome, hsplit, List.take_length_add_append]
        simp
      · have : (buildExtensions t p s).1 = .ok () := hok
        rw [hs.outcome] at this
        cases this

/-- **In every state that calls can bring about**, whatever they find and whatever the
toolchain answers, a pass remembers what it should and is lawful from there on. -/
theorem reached_lawful (t : Toolchain) (context : CompileContext)
    (extensions : List ExtensionSpec) (layout : PackageLayout) (verbose : Bool)
    (calls : List (Call × Session)) :
    Lawful t (fresh context extensions layout verbose)
      (attempts t (fresh context extensions layout verbose) calls)
      (after t (fresh context extensions layout verbose) calls) :=
  (reached_remembers t context extensions layout verbose calls).lawful

end StableWheel.BuildPass
