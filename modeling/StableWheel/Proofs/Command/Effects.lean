import StableWheel.Command.Run
import StableWheel.Proofs.Build.Requests

/-! What commands do to files before anything is staged.

Finding out what there is to build starts programs, and compiling starts programs and creates
directories; nothing else touches a file. Whatever relation these respect holds between the
files before and after (`plan_moves`, `BuildPass.buildExtensions_moves`). -/
namespace StableWheel

variable {R : FileSystem → FileSystem → Prop} {h : Host}

/-! ### Planning -/

/-- What interpreters are asked. -/
def Interpreter.questions : List (List String) := [["--version"], ["-c", script]]

section
variable (hR : FileSystem.Composes R)
  (hh : ∀ arguments ∈ Interpreter.questions, ∀ place fs, R fs (h.behave place arguments fs).2)
include hR

theorem load_moves (root : Path) : Task.Moves R (ProjectConfig.load root) := by
  refine .bind hR (.files hR) fun fs => ?_
  dsimp only
  split
  · exact .bind hR (.throw hR _) fun _ => .bind hR (.ofExcept hR _) fun _ =>
      .bind hR (.note hR _) fun _ => .ofExcept hR _
  · exact .bind hR (.ofExcept hR _) fun _ => .bind hR (.note hR _) fun _ => .ofExcept hR _

theorem describeEach_moves (platform : Platform) (package : Option String)
    (modules : List DeclaredModule) : Task.Moves R (describeEach platform package modules) := by
  induction modules with
  | nil => exact .pure hR _
  | cons m rest ih =>
    exact .bind hR (.ofExcept hR _) fun _ => .bind hR (.note hR _) fun _ =>
      .bind hR ih fun _ => .pure hR _

include hh

theorem firstAnswering_moves (candidates : List String) :
    Task.Moves R (Interpreter.firstAnswering h candidates) := by
  induction candidates with
  | nil => exact .throw hR _
  | cons candidate rest ih =>
    refine .bind hR (Host.start_moves hR (hh _ (by simp [Interpreter.questions])) candidate)
      fun answer => ?_
    cases answer with
    | error e => exact ih
    | ok finished =>
      dsimp only
      split
      · exact .pure hR _
      · exact ih

theorem locate_moves (given : Option String) : Task.Moves R (Interpreter.locate h given) := by
  unfold Interpreter.locate
  split
  · exact .pure hR _
  · exact firstAnswering_moves hR hh _

theorem report_moves (program : String) : Task.Moves R (Interpreter.report h program) := by
  refine .bind hR (.note hR _) fun _ => ?_
  refine .bind hR (.explain (Host.start_moves hR (hh _ (by simp [Interpreter.questions])) program))
    fun finished => ?_
  dsimp only
  split
  · exact .bind hR (.throw hR _) fun _ => .ofExcept hR _
  · exact .ofExcept hR _

theorem introspect_moves (python : Option String) : Task.Moves R (introspect h python) :=
  .bind hR (.explain (locate_moves hR hh python)) fun program =>
    .bind hR (.explain (report_moves hR hh program)) fun _ =>
      .bind hR (.note hR _) fun _ => .pure hR _

/-- Nothing is written before the build: only programs may change files. -/
theorem plan_moves (options : BuildOptions) : Task.Moves R (plan h options) := by
  refine .bind hR (.files hR) fun fs => .bind hR (.ofExcept hR _) fun root => ?_
  refine .bind hR (.explain (load_moves hR root)) fun config => ?_
  refine .bind hR (.files hR) fun fs => .bind hR (.ofExcept hR _) fun defaults => ?_
  refine .bind hR (describeEach_moves hR _ _ _) fun specs => ?_
  refine .bind hR (.files hR) fun fs => .bind hR (.ofExcept hR _) fun _ => ?_
  split
  · exact .bind hR (.bind hR (introspect_moves hR hh _) fun _ => .pure hR _) fun _ => .pure hR _
  · exact .bind hR (.pure hR _) fun _ => .pure hR _

end

/-! ### Compiling -/

namespace BuildPass

theorem ask_moves {t : Toolchain} {spec : ExtensionSpec} {b : BuildPass}
    (ht : ∀ n s, R s.files (t.compile n spec b.context s).2.files) (s : Session) :
    R s.files (ask t b spec s).2.files := by
  have hcompile := ht b.requests.length (b.announce ("running build_ext for " ++ spec.fullName) s)
  rw [announce_files] at hcompile
  exact hcompile

theorem askEach_moves {t : Toolchain} (hR : FileSystem.Composes R) (specs : List ExtensionSpec)
    (b : BuildPass)
    (ht : ∀ spec ∈ specs, ∀ n s, R s.files (t.compile n spec b.context s).2.files)
    (s : Session) : R s.files (askEach t specs b s).2.files := by
  induction specs generalizing b s with
  | nil => exact hR.refl s.files
  | cons spec rest ih =>
    have hfirst := ask_moves (ht spec (List.mem_cons_self ..)) s
    exact hR.trans hfirst (ih { b with requests := b.requests ++ [spec] }
      (fun spec hspec => ht spec (List.mem_cons_of_mem _ hspec)) _)

/-- When all modules are compiled, what happened to files was done by the toolchain. -/
theorem buildExtensions_moves {t : Toolchain} (hR : FileSystem.Composes R) {b b' : BuildPass}
    (ht : ∀ spec ∈ b.extensions, ∀ n s, R s.files (t.compile n spec b.context s).2.files)
    {s s' : Session} {u : Unit} (ho : buildExtensions t b s = (.ok u, b', s')) :
    R s.files s'.files := by
  rcases buildExtensions_ok ho with ⟨-, -, hsame⟩ | ⟨artifacts, hd⟩
  · rw [hsame]
    exact hR.refl s.files
  · cases hd.outcome
    exact askEach_moves hR b.extensions { b with steps := b.steps ++ [.extensions] } ht s

end BuildPass
end StableWheel
