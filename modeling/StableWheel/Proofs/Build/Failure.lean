import Mathlib.Control.Monad.Basic
import StableWheel.Proofs.Build.Calls
import StableWheel.Proofs.FileSystem.Within

/-! What a failed attempt leaves in the build tree.

The modules that were compiled before the failing one are removed again
(`stopped_attempt_clears`): whatever the compilers did, a path of theirs names neither a file nor a
link afterwards, unless the system refused to remove it, and nothing else is touched. What the
failing compiler wrote is not looked for: it stays (`failing_module_stays`). -/
namespace StableWheel

namespace FileSystem

/-- Removes what several paths name, as far as that is possible. -/
def removeEach (refusals : Refusals) (ps : List Path) (fs : FileSystem) : FileSystem :=
  ps.foldl (fun fs p => (fs.removeFile refusals p).2) fs

variable {refusals : Refusals}

theorem removeEach_nil (fs : FileSystem) : removeEach refusals [] fs = fs := rfl

theorem removeEach_cons (p : Path) (ps : List Path) (fs : FileSystem) :
    removeEach refusals (p :: ps) fs = removeEach refusals ps (fs.removeFile refusals p).2 := rfl

theorem removeEach_append (ps qs : List Path) (fs : FileSystem) :
    removeEach refusals (ps ++ qs) fs = removeEach refusals qs (removeEach refusals ps fs) :=
  List.foldl_append

theorem removeEach_within (ps : List Path) (fs : FileSystem) :
    Within (removeEach refusals ps fs) fs := by
  induction ps generalizing fs with
  | nil => exact .refl fs
  | cons p rest ih => exact (ih _).trans (removeFile_within fs p)

/-- Each path is left without a file or a link, unless its removal is refused when its turn
comes. -/
theorem removeEach_bare (front : List Path) (p : Path) (back : List Path) (fs : FileSystem) :
    Bare (removeEach refusals (front ++ p :: back) fs) p ∨
      Refused refusals (removeEach refusals front fs) p := by
  rw [removeEach_append, removeEach_cons]
  exact (removeFile_bare refusals _ p).imp_left fun hbare => hbare.within (removeEach_within back _)

theorem lookup_removeEach (ps : List Path) (fs : FileSystem) (place : Location) :
    (removeEach refusals ps fs).lookup place = fs.lookup place ∨
      (removeEach refusals ps fs).lookup place = none ∧
        ∃ p ∈ ps, ∃ n, fs.find p .kept = .ok (place, n) ∧ n ≠ .directory := by
  induction ps generalizing fs with
  | nil => exact .inl rfl
  | cons p rest ih =>
    have hp := lookup_removeFile refusals fs p place
    rcases ih (fs.removeFile refusals p).2 with hkept | ⟨hgone, q, hq, n, hf, hn⟩
    · rw [removeEach_cons, hkept]
      rcases hp with hp | ⟨hp, n, hf, hn⟩
      · exact .inl hp
      · exact .inr ⟨hp, p, List.mem_cons_self .., n, hf, hn⟩
    · exact .inr ⟨hgone, q, List.mem_cons_of_mem p hq, n,
        find_within (removeFile_within fs p) hf, hn⟩

end FileSystem

namespace BuildPass

theorem discard_files (ps : List Path) (s : Session) :
    (discard ps s).files = s.files.removeEach s.refusals ps := by
  induction ps generalizing s with
  | nil => rfl
  | cons p rest ih =>
    rw [FileSystem.removeEach_cons]
    unfold discard
    rcases s.files.removeFile s.refusals p with ⟨_ | _, fs⟩
    · exact ih _
    · exact ih _

/-- What an attempt leaves that stops at a module, after any calls: the files as the toolchain
left them, without the modules it had delivered. -/
theorem stopped_attempt (t : Toolchain) (context : CompileContext)
    (extensions : List ExtensionSpec) (layout : PackageLayout) (verbose : Bool)
    (calls : List (Call × Session)) {s s' : Session} {p p' : BuildPass}
    {module reason output : String}
    (hp : p = after t (fresh context extensions layout verbose) calls)
    (hf : buildExtensions t p s = (.error (.compileFailed module reason output), p', s')) :
    p.context = context ∧ ∃ earlier failing rest artifacts,
      extensions = earlier ++ failing :: rest ∧
      module = (askAfter t earlier p failing s).1.moduleName ∧
      (askEach t earlier p s).1.map CompileResult.delivered = artifacts.map some ∧
      s'.files = (askAfter t earlier p failing s).2.files.removeEach
        (askAfter t earlier p failing s).2.refusals artifacts := by
  have hr := reached_remembers t context extensions layout verbose calls
  rw [← hp] at hr
  obtain ⟨hcontext, hextensions, -, -⟩ := hr.plan
  rcases buildExtensions_cases t p s with ⟨-, ho⟩ |
      ⟨hc, ⟨e, -, ho⟩ | ⟨-, ⟨artifacts, hd⟩ | ⟨earlier, failing, artifacts, hs⟩⟩⟩
  · rw [ho] at hf; cases hf
  · rw [ho] at hf; cases hf
  · rw [hd.outcome] at hf; cases hf
  · obtain ⟨rest, hsplit⟩ := hs.split
    have hnone : p.artifacts = [] := hr.unbuilt (by rw [← hr.compiled, hc]; simp)
    have ho := hs.outcome
    rw [hf, askAfter_steps, hnone, List.nil_append] at ho
    simp only [Prod.mk.injEq, Except.error.injEq, failureOf, BuildError.compileFailed.injEq] at ho
    obtain ⟨⟨hmodule, -, -⟩, -, hleft⟩ := ho
    have hanswers := hs.answers
    rw [askEach_steps] at hanswers
    exact ⟨hcontext, earlier, failing, rest, artifacts, by rw [← hsplit]; exact hextensions.symm,
      hmodule, hanswers, by rw [hleft, discard_files]⟩

/-! ### The compiler of a host -/

variable {h : Host} {target : String} {verbose : Bool}

theorem ask_delivered (b : BuildPass) (spec : ExtensionSpec) (s : Session) {artifact : Path}
    (hd : (ask (.ofHost h target verbose) b spec s).1.delivered = some artifact) :
    artifact = spec.artifactPath b.context.buildLib b.context.platform :=
  Toolchain.ofHost_delivered b.requests.length hd

theorem ask_moduleName (b : BuildPass) (spec : ExtensionSpec) (s : Session) :
    (ask (.ofHost h target verbose) b spec s).1.moduleName = spec.fullName :=
  Toolchain.ofHost_moduleName b.requests.length (b.announce _ s)

/-- Every module that is delivered is said to be at its own path. -/
theorem askEach_paths (specs : List ExtensionSpec) (b : BuildPass) (s : Session)
    {artifacts : List Path}
    (ha : (askEach (.ofHost h target verbose) specs b s).1.map CompileResult.delivered =
      artifacts.map some) :
    artifacts = specs.map (·.artifactPath b.context.buildLib b.context.platform) := by
  induction specs generalizing b s artifacts with
  | nil => simpa [askEach] using ha.symm
  | cons spec rest ih =>
    rw [askEach_cons, List.map_cons] at ha
    cases artifacts with
    | nil => cases ha
    | cons artifact artifacts =>
      obtain ⟨hfirst, hrest⟩ := List.cons.inj ha
      rw [List.map_cons, ask_delivered b spec s hfirst, ih _ _ hrest]

/-- **A failed attempt leaves no module that it compiled before the failing one**, as far as it may
remove them. Whatever the compilers of the host did, the path of such a module names neither a file
nor a link, or the system refused to remove it when its turn came, which is of no account to the
attempt. Everything else, what the failing compiler wrote included, is as the last compiler left
it. -/
theorem stopped_attempt_clears (h : Host) (target : String) (verbose announced : Bool)
    (context : CompileContext) (extensions : List ExtensionSpec) (layout : PackageLayout)
    (calls : List (Call × Session)) (s s' : Session) (p p' : BuildPass)
    (module reason output : String)
    (hp : p = after (.ofHost h target verbose)
      (fresh context extensions layout announced) calls)
    (hf : buildExtensions (.ofHost h target verbose) p s =
      (.error (.compileFailed module reason output), p', s')) :
    ∃ earlier failing rest left,
      extensions = earlier ++ failing :: rest ∧
      module = failing.fullName ∧
      left = (askAfter (.ofHost h target verbose) earlier p failing s).2 ∧
      (∀ front spec back, earlier = front ++ spec :: back →
        s'.files.Bare (spec.artifactPath context.buildLib context.platform) ∨
        FileSystem.Refused left.refusals
          (left.files.removeEach left.refusals
            (front.map (·.artifactPath context.buildLib context.platform)))
          (spec.artifactPath context.buildLib context.platform)) ∧
      ∀ place, s'.files.lookup place = left.files.lookup place ∨
        s'.files.lookup place = none ∧ ∃ spec ∈ earlier, ∃ n, n ≠ .directory ∧
          left.files.find (spec.artifactPath context.buildLib context.platform) .kept =
            .ok (place, n) := by
  obtain ⟨hcontext, earlier, failing, rest, artifacts, hsplit, hmodule, hanswers, hfiles⟩ :=
    stopped_attempt _ context extensions layout announced calls hp hf
  have hpaths := askEach_paths earlier p s hanswers
  rw [hcontext] at hpaths
  refine ⟨earlier, failing, rest, _, hsplit, ?_, rfl, ?_, ?_⟩
  · rw [hmodule]
    exact ask_moduleName _ failing _
  · intro front spec back hearlier
    rw [hfiles, hpaths, hearlier, List.map_append, List.map_cons]
    exact FileSystem.removeEach_bare _ _ _ _
  · intro place
    rw [hfiles]
    rcases FileSystem.lookup_removeEach artifacts
        (askAfter (.ofHost h target verbose) earlier p failing s).2.files place with
      hkept | ⟨hgone, q, hq, n, hfound, hn⟩
    · exact .inl hkept
    · rw [hpaths] at hq
      obtain ⟨spec, hspec, rfl⟩ := List.mem_map.mp hq
      exact .inr ⟨hgone, spec, hspec, n, hn, hfound⟩

/-! ### A compiler that writes and then fails -/

/-- The file that a compiler is told to write. -/
def outputIn : List String → Path
  | "-o" :: output :: _ => ⟨output⟩
  | _ :: rest => outputIn rest
  | [] => ⟨""⟩

/-- A machine whose compiler always writes a module, and says afterwards that it could not
compile `bad.c`. -/
def carelessHost : Host where
  environment _ := none
  accountHome := none
  target := "x86_64-unknown-linux-gnu"
  system := "linux"
  processor := "x86_64"
  takesSlashes _ := none
  behave _ arguments fs :=
    (⟨some (if arguments.contains "/p/bad.c" then 1 else 0), ByteArray.empty, ByteArray.empty⟩,
      (fs.write (outputIn arguments) ⟨.data ⟨#[7]⟩, true⟩).2)

def carelessFiles : FileSystem where
  entries :=
    [(["bin"], .directory), (["bin", "cc"], .file ⟨.data ByteArray.empty, true⟩),
      (["p"], .directory), (["p", "good.c"], .file ⟨.data ByteArray.empty, false⟩),
      (["p", "bad.c"], .file ⟨.data ByteArray.empty, false⟩)]
  workingDirectory := ["p"]

def carelessContext : CompileContext := .ofBuildDir ⟨"/p"⟩ ⟨"/p/build"⟩ .other

def carelessGood : ExtensionSpec := ⟨"_good", none, [⟨"good.c"⟩], [], [], [], false⟩

def carelessBad : ExtensionSpec := ⟨"_bad", none, [⟨"bad.c"⟩], [], [], [], false⟩

def carelessModules : List ExtensionSpec := [carelessGood, carelessBad]

/-- The one module that may be blamed has the other one before it. -/
theorem carelessModules_split {earlier rest : List ExtensionSpec} {failing : ExtensionSpec}
    (hsplit : carelessModules = earlier ++ failing :: rest) (hname : "_bad" = failing.fullName) :
    earlier = [carelessGood] ∧ failing = carelessBad := by
  rcases earlier with _ | ⟨first, _ | ⟨second, more⟩⟩
  · obtain ⟨rfl, -⟩ := List.cons.inj hsplit
    exact absurd hname (by decide)
  · obtain ⟨rfl, hlast⟩ := List.cons.inj hsplit
    obtain ⟨rfl, -⟩ := List.cons.inj hlast
    exact ⟨rfl, rfl⟩
  · simp [carelessModules] at hsplit

def carelessAttempt : Outcome :=
  buildExtensions (.ofHost carelessHost carelessHost.target false)
    (fresh carelessContext carelessModules .empty false) (.ofFiles carelessFiles)

theorem carelessAttempt_fails : carelessAttempt.1 =
    .error (.compileFailed "_bad" "compiler failed with exit code: 1" "") := by decide +kernel

theorem carelessAttempt_outcome :
    buildExtensions (.ofHost carelessHost carelessHost.target false)
        (fresh carelessContext carelessModules .empty false) (.ofFiles carelessFiles) =
      (.error (.compileFailed "_bad" "compiler failed with exit code: 1" ""),
        carelessAttempt.2.1, carelessAttempt.2.2) := by
  show carelessAttempt = _
  rw [← carelessAttempt_fails]

/-- The module that failed was not there before and is there afterwards. -/
theorem failing_module_stays :
    carelessAttempt.1 =
        .error (.compileFailed "_bad" "compiler failed with exit code: 1" "") ∧
      carelessFiles.lookup ["p", "build", "lib", "_bad.so"] = none ∧
      carelessAttempt.2.2.files.lookup ["p", "build", "lib", "_bad.so"] =
        some (.file ⟨.data ⟨#[7]⟩, true⟩) := by
  refine ⟨carelessAttempt_fails, ?_, ?_⟩ <;> decide +kernel

/-- What the compiler leaves that was started for both modules. -/
def carelessLeft : Session :=
  (askAfter (.ofHost carelessHost carelessHost.target false) [carelessGood]
    (fresh carelessContext carelessModules .empty false) carelessBad (.ofFiles carelessFiles)).2

theorem carelessGood_path : carelessGood.artifactPath carelessContext.buildLib
    carelessContext.platform = ⟨"/p/build/lib/_good.so"⟩ := by decide +kernel

theorem carelessLeft_find : carelessLeft.files.find ⟨"/p/build/lib/_good.so"⟩ .kept =
    .ok (["p", "build", "lib", "_good.so"], .file ⟨.data ⟨#[7]⟩, true⟩) := by decide +kernel

theorem carelessLeft_allows : ¬ FileSystem.Refused carelessLeft.refusals carelessLeft.files
    ⟨"/p/build/lib/_good.so"⟩ := by
  rintro ⟨place, n, e, hfound, -, hrefused⟩
  obtain ⟨rfl, -⟩ := Prod.mk.inj (Except.ok.inj (carelessLeft_find.symm.trans hfound))
  have hallowed : carelessLeft.refusals carelessLeft.files ["p", "build", "lib", "_good.so"] =
      none := by decide +kernel
  cases hallowed.symm.trans hrefused

/-- The compiler had left the module before it, which is cleared away, and nothing else is. -/
theorem earlier_module_cleared :
    carelessLeft.files.lookup ["p", "build", "lib", "_good.so"] =
        some (.file ⟨.data ⟨#[7]⟩, true⟩) ∧
      carelessAttempt.2.2.files.Bare ⟨"/p/build/lib/_good.so"⟩ ∧
      ∀ place, place ≠ ["p", "build", "lib", "_good.so"] →
        carelessAttempt.2.2.files.lookup place = carelessLeft.files.lookup place := by
  obtain ⟨earlier, failing, rest, left, hsplit, hname, hleft, hgone, hkept⟩ :=
    stopped_attempt_clears carelessHost carelessHost.target false false carelessContext
      carelessModules .empty [] (.ofFiles carelessFiles) carelessAttempt.2.2
      (fresh carelessContext carelessModules .empty false) carelessAttempt.2.1 _ _ _ rfl
      carelessAttempt_outcome
  obtain ⟨rfl, rfl⟩ := carelessModules_split hsplit hname
  obtain rfl : left = carelessLeft := hleft
  refine ⟨(FileSystem.find_iff.mp carelessLeft_find).2, ?_, fun place hplace => ?_⟩
  · have hfirst := hgone [] carelessGood [] rfl
    rw [carelessGood_path, List.map_nil, FileSystem.removeEach_nil] at hfirst
    exact hfirst.resolve_right carelessLeft_allows
  · rcases hkept place with hsame | ⟨-, spec, hspec, n, -, hfound⟩
    · exact hsame
    · obtain rfl := List.mem_singleton.mp hspec
      rw [carelessGood_path, carelessLeft_find] at hfound
      cases hfound
      exact absurd rfl hplace

/-- Where nothing may be removed, the module before it stays as well. -/
example :
    ((buildExtensions (.ofHost carelessHost carelessHost.target false)
      (fresh carelessContext carelessModules .empty false)
      { Session.ofFiles carelessFiles with refusals := fun _ _ => some .denied }).2.2.files.lookup
        ["p", "build", "lib", "_good.so"]) = some (.file ⟨.data ⟨#[7]⟩, true⟩) := by
  decide +kernel

end BuildPass
end StableWheel
