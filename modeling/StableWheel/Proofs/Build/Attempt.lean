import StableWheel.Proofs.Build.Failure

/-! All that comes of an attempt at the modules.

Before the modules of a pass are compiled, an attempt at them asks for one after the other. The
first answer that delivers nothing ends it (`Halts`); if there is none, every module was asked for
once (`Completes`). `attempt_ends` says that it always comes to one of the two, whatever was called
before: which one, with which error and with which files left, is told by the answers up to that
point, and a toolchain that gives the same answers there may do as it likes with the rest. -/
namespace StableWheel.BuildPass
open FileSystem

/-! ### The answers that count -/

theorem askEach_append (t : Toolchain) (first more : List ExtensionSpec) (b : BuildPass)
    (s : Session) :
    askEach t (first ++ more) b s =
      ((askEach t first b s).1 ++
          (askEach t more { b with requests := b.requests ++ first } (askEach t first b s).2).1,
        (askEach t more { b with requests := b.requests ++ first } (askEach t first b s).2).2) := by
  induction first generalizing b s with
  | nil => simp [askEach]
  | cons spec rest ih =>
    rw [List.cons_append, askEach_cons, ih, askEach_cons]
    simp only [List.append_assoc, List.cons_append, List.nil_append]

/-- One more answer comes after the earlier ones. -/
theorem askEach_concat (t : Toolchain) (earlier : List ExtensionSpec) (failing : ExtensionSpec)
    (b : BuildPass) (s : Session) :
    askEach t (earlier ++ [failing]) b s =
      ((askEach t earlier b s).1 ++ [(askAfter t earlier b failing s).1],
        (askAfter t earlier b failing s).2) :=
  askEach_append t earlier [failing] b s

/-- The answers to the modules up to the one that is not delivered decide what an attempt comes
to. -/
theorem compileEach_of_refused {t : Toolchain} {earlier : List ExtensionSpec}
    {failing : ExtensionSpec} (rest : List ExtensionSpec) {b : BuildPass} {s : Session}
    {artifacts : List Path}
    (hd : (askEach t earlier b s).1.map CompileResult.delivered = artifacts.map some)
    (hr : (askAfter t earlier b failing s).1.delivered = none) :
    compileEach t (earlier ++ failing :: rest) b s =
      (.error (failureOf (askAfter t earlier b failing s).1),
        { b with requests := b.requests ++ (earlier ++ [failing]), artifacts := [] },
        discard (b.artifacts ++ artifacts) (askAfter t earlier b failing s).2) := by
  induction earlier generalizing b s artifacts with
  | nil =>
    obtain rfl : artifacts = [] := List.map_eq_nil_iff.mp hd.symm
    have hfirst : askAfter t [] b failing s = ask t b failing s :=
      ask_congr t failing s rfl rfl (List.append_nil _)
    rw [hfirst] at hr ⊢
    rw [List.nil_append, compileEach_cons, hr, List.nil_append, List.append_nil]
  | cons spec more ih =>
    rw [askEach_cons, List.map_cons] at hd
    rcases artifacts with _ | ⟨artifact, artifacts⟩
    · cases hd
    obtain ⟨hfirst, hmore⟩ := List.cons.inj hd
    have hlast := askAfter_cons t spec more (b := b) failing s
      (c := { b with requests := b.requests ++ [spec], artifacts := b.artifacts ++ [artifact] })
      rfl rfl rfl
    have hrest := askEach_congr t more (b := { b with requests := b.requests ++ [spec] })
      (c := { b with requests := b.requests ++ [spec], artifacts := b.artifacts ++ [artifact] })
      (ask t b spec s).2 rfl rfl rfl
    rw [hlast] at hr ⊢
    rw [List.cons_append, compileEach_cons, hfirst]
    dsimp only
    rw [ih (by rw [hrest, hmore]) hr]
    simp only [List.append_assoc, List.cons_append, List.nil_append]

/-! ### The two ends of an attempt -/

/-- Files without what several paths named. Files and links at these paths are gone, but for those
whose removal was refused when their turn came, and nothing else is touched. -/
structure Cleared (refusals : Refusals) (paths : List Path) (before after : FileSystem) : Prop where
  files : after = before.removeEach refusals paths
  gone : ∀ front p back, paths = front ++ p :: back →
    after.Bare p ∨ Refused refusals (before.removeEach refusals front) p
  kept : ∀ place, after.lookup place = before.lookup place ∨
    after.lookup place = none ∧ ∃ p ∈ paths, ∃ n, n ≠ .directory ∧
      before.find p .kept = .ok (place, n)

theorem cleared_removeEach (refusals : Refusals) (paths : List Path) (fs : FileSystem) :
    Cleared refusals paths fs (fs.removeEach refusals paths) where
  files := rfl
  gone := by
    rintro front p back rfl
    exact removeEach_bare front p back fs
  kept place := by
    rcases lookup_removeEach paths fs place with hsame | ⟨hgone, p, hp, n, hfound, hn⟩
    · exact .inl hsame
    · exact .inr ⟨hgone, p, hp, n, hn, hfound⟩

/-- An attempt that ends at a module: the toolchain delivered those before it, one artifact for
each, and not this one, and it was asked for no other. -/
structure Halts (t : Toolchain) (p : BuildPass) (s : Session) (earlier : List ExtensionSpec)
    (failing : ExtensionSpec) (artifacts : List Path) (result : CompileResult) (left : Session) :
    Prop where
  declared : ∃ rest, p.extensions = earlier ++ failing :: rest
  delivered : (askEach t earlier p s).1.map CompileResult.delivered = artifacts.map some
  answered : askAfter t earlier p failing s = (result, left)
  refused : result.delivered = none
  error : (buildExtensions t p s).1 = .error (.compileFailed result.moduleName
    (result.error.getD "compiler produced no module") result.output)
  pass : (buildExtensions t p s).2.1 =
    { p with
      steps := p.steps ++ [.extensions]
      requests := p.requests ++ (earlier ++ [failing]) }
  cleared : Cleared left.refusals artifacts left.files (buildExtensions t p s).2.2.files
  /-- A run of the whole pass ends here as well, before anything is staged. -/
  unstaged : p.run t s = buildExtensions t p s
  /-- Another toolchain may differ in whatever it was not asked for. -/
  unasked : ∀ t', askEach t' (earlier ++ [failing]) p s = askEach t (earlier ++ [failing]) p s →
    buildExtensions t' p s = buildExtensions t p s

/-- An attempt that goes through: every module was asked for once, in order, and delivered. -/
structure Completes (t : Toolchain) (p : BuildPass) (s : Session) (artifacts : List Path) :
    Prop where
  delivered : (askEach t p.extensions p s).1.map CompileResult.delivered = artifacts.map some
  outcome : buildExtensions t p s = (.ok (),
    { p with
      steps := p.steps ++ [.extensions]
      requests := p.requests ++ p.extensions
      artifacts
      compiled := true },
    (askEach t p.extensions p s).2)

/-! ### Which end it is -/

section
variable {t : Toolchain} {p : BuildPass} {s : Session} (hc : p.compiled = false)
  (hnone : p.artifacts = []) (hv : verifySources s.files p.context.root p.extensions = .ok ())
include hc hv

theorem buildExtensions_fresh : buildExtensions t p s =
    compileEach t p.extensions { p with steps := p.steps ++ [.extensions] } s := by
  rw [buildExtensions, hc, if_neg Bool.false_ne_true, hv]

include hnone

/-- The answers up to the module that is not delivered are all that counts. -/
theorem buildExtensions_of_refused {earlier rest : List ExtensionSpec} {failing : ExtensionSpec}
    {artifacts : List Path} (hsplit : p.extensions = earlier ++ failing :: rest)
    (hd : (askEach t earlier p s).1.map CompileResult.delivered = artifacts.map some)
    (hr : (askAfter t earlier p failing s).1.delivered = none) :
    buildExtensions t p s = (.error (failureOf (askAfter t earlier p failing s).1),
      { p with
        steps := p.steps ++ [.extensions]
        requests := p.requests ++ (earlier ++ [failing]) },
      discard artifacts (askAfter t earlier p failing s).2) := by
  rw [← askEach_steps t earlier p (p.steps ++ [.extensions])] at hd
  rw [← askAfter_steps t earlier p (p.steps ++ [.extensions])] at hr
  have hend := compileEach_of_refused rest hd hr
  rw [← hsplit, askAfter_steps] at hend
  rw [buildExtensions_fresh hc hv, hend]
  simp only [hnone, List.nil_append]

theorem halts_of_refused {earlier rest : List ExtensionSpec} {failing : ExtensionSpec}
    {artifacts : List Path} (hsplit : p.extensions = earlier ++ failing :: rest)
    (hd : (askEach t earlier p s).1.map CompileResult.delivered = artifacts.map some)
    (hr : (askAfter t earlier p failing s).1.delivered = none) :
    Halts t p s earlier failing artifacts (askAfter t earlier p failing s).1
      (askAfter t earlier p failing s).2 := by
  have hend := buildExtensions_of_refused hc hnone hv hsplit hd hr
  refine ⟨⟨rest, hsplit⟩, hd, rfl, hr, ?_, ?_, ?_, ?_, fun t' hsame => ?_⟩
  · rw [hend]
    rfl
  · rw [hend]
  · rw [hend, discard_files]
    exact cleared_removeEach _ artifacts _
  · rw [hend]
    exact run_stopped (by simp [hasExtensions, hsplit]) hend
  · rw [askEach_concat, askEach_concat, Prod.mk.injEq] at hsame
    obtain ⟨hanswers, hleft⟩ := hsame
    obtain ⟨hearlier, hfailing⟩ := List.append_inj' hanswers rfl
    have hlast : askAfter t' earlier p failing s = askAfter t earlier p failing s :=
      Prod.ext (List.cons.inj hfailing).1 hleft
    rw [← hearlier] at hd
    rw [← hlast] at hr
    rw [buildExtensions_of_refused hc hnone hv hsplit hd hr, hend, hlast]

end

/-- **What an attempt at the modules comes to**, in any state in which they have not been compiled
and their sources are there. The toolchain is asked for the modules in the order of their
declaration, up to the first that it does not deliver. That answer is the error, the modules before
it are removed, and nothing is staged; or there is no such answer, and all are compiled. -/
theorem attempt_ends (t : Toolchain) (context : CompileContext) (extensions : List ExtensionSpec)
    (layout : PackageLayout) (verbose : Bool) (calls : List (Call × Session)) (p : BuildPass)
    (s : Session) (hp : p = after t (fresh context extensions layout verbose) calls)
    (hnot : ¬ Built t (attempts t (fresh context extensions layout verbose) calls))
    (hv : verifySources s.files context.root extensions = .ok ()) :
    p.context = context ∧ p.extensions = extensions ∧
      ((∃ artifacts, Completes t p s artifacts) ∨
        ∃ earlier failing artifacts result left,
          Halts t p s earlier failing artifacts result left) := by
  have hr := reached_remembers t context extensions layout verbose calls
  rw [← hp] at hr
  obtain ⟨hcontext, hextensions, -, -⟩ := hr.plan
  have hc : p.compiled = false := by
    rw [← Bool.not_eq_true, hr.compiled]
    exact hnot
  have hnone : p.artifacts = [] := hr.unbuilt hnot
  replace hv : verifySources s.files p.context.root p.extensions = .ok () := by
    rw [hcontext, hextensions]
    exact hv
  refine ⟨hcontext, hextensions, ?_⟩
  rcases compileEach_cases t p.extensions { p with steps := p.steps ++ [.extensions] } s with
    ⟨artifacts, hd⟩ | ⟨earlier, failing, artifacts, hs⟩
  · refine .inl ⟨artifacts, ?_, ?_⟩
    · rw [← askEach_steps]
      exact hd.answers
    · rw [buildExtensions_fresh hc hv, hd.outcome, askEach_steps, hnone, List.nil_append]
  · obtain ⟨rest, hsplit⟩ := hs.split
    refine .inr ⟨earlier, failing, artifacts, _, _, halts_of_refused hc hnone hv hsplit ?_ ?_⟩
    · rw [← askEach_steps]
      exact hs.answers
    · rw [← askAfter_steps]
      exact hs.refused

/-! ### The compiler of a host -/

/-- A compiler is blamed for the module it was asked for, and those before it are removed from where
they belong. -/
theorem Halts.of_host {h : Host} {target : String} {verbose : Bool} {p : BuildPass} {s : Session}
    {earlier : List ExtensionSpec} {failing : ExtensionSpec} {artifacts : List Path}
    {result : CompileResult} {left : Session}
    (hhalts : Halts (.ofHost h target verbose) p s earlier failing artifacts result left) :
    result.moduleName = failing.fullName ∧
      artifacts = earlier.map (·.artifactPath p.context.buildLib p.context.platform) := by
  refine ⟨?_, askEach_paths earlier p s hhalts.delivered⟩
  have hname : (askAfter (.ofHost h target verbose) earlier p failing s).1.moduleName =
      failing.fullName := ask_moduleName _ failing _
  rwa [hhalts.answered] at hname

/-- A machine whose compiler always writes a module, and says afterwards that it could not compile
the second one: that one is to blame, and the first one is removed. -/
theorem carelessAttempt_ends :
    (∃ result, result.moduleName = "_bad" ∧
      Halts (.ofHost carelessHost carelessHost.target false)
        (fresh carelessContext carelessModules .empty false) (.ofFiles carelessFiles)
        [carelessGood] carelessBad [⟨"/p/build/lib/_good.so"⟩] result carelessLeft) ∧
      carelessAttempt.2.2.files.Bare ⟨"/p/build/lib/_good.so"⟩ := by
  obtain ⟨-, -, ⟨artifacts, hall⟩ | ⟨earlier, failing, artifacts, result, left, hhalts⟩⟩ :=
    attempt_ends (.ofHost carelessHost carelessHost.target false) carelessContext carelessModules
      .empty false [] (fresh carelessContext carelessModules .empty false)
      (.ofFiles carelessFiles) rfl (by simp [attempts, Built]) (by decide +kernel)
  · have hok := hall.outcome
    rw [carelessAttempt_outcome] at hok
    cases congrArg Prod.fst hok
  have hblamed := hhalts.error
  rw [carelessAttempt_outcome] at hblamed
  obtain ⟨hmodule, -, -⟩ := BuildError.compileFailed.inj (Except.error.inj hblamed)
  obtain ⟨rest, hsplit⟩ := hhalts.declared
  obtain ⟨hname, hpaths⟩ := hhalts.of_host
  obtain ⟨rfl, rfl⟩ := carelessModules_split hsplit (hmodule.trans hname)
  have hleft := congrArg Prod.snd hhalts.answered
  change carelessLeft = left at hleft
  subst hleft
  obtain rfl : artifacts = [⟨"/p/build/lib/_good.so"⟩] := by
    rw [hpaths, List.map_singleton]
    exact congrArg (fun p => [p]) carelessGood_path
  refine ⟨⟨result, hmodule.symm, hhalts⟩, ?_⟩
  have hfirst := hhalts.cleared.gone [] _ [] rfl
  rw [FileSystem.removeEach_nil, carelessAttempt_outcome] at hfirst
  dsimp only at hfirst
  exact hfirst.resolve_right carelessLeft_allows

end StableWheel.BuildPass
