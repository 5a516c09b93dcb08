import StableWheel.Compiler.Toolchain
import StableWheel.Proofs.Session.Effects

/-! One call of a host's compiler.

A module is handed over exactly when the compiler was found, could be started and ended with
status zero; it is then said to be at the module's own path, whether or not anything is there
(`compileOn_ok`). -/
namespace StableWheel

/-- The module that a toolchain hands over, if it does. -/
def CompileResult.delivered (r : CompileResult) : Option Path :=
  if r.success then r.artifact else none

/-- All that starting a program does to files is done by the program. -/
theorem Host.start_moves {R : FileSystem → FileSystem → Prop} (hR : FileSystem.Composes R)
    {h : Host} {arguments : List String} (hh : ∀ place fs, R fs (h.behave place arguments fs).2)
    (program : String) : Task.Moves R (h.start program arguments) := by
  intro s
  rw [start, Task.run_ofRun]
  cases h.startable s.files program arguments with
  | error e => exact hR.refl s.files
  | ok place => exact hh place s.files

/-- A program that was started is at a place where it can be, and did what it does there. -/
theorem Host.start_ok {h : Host} {program : String} {arguments : List String}
    {finished : Finished} {s s' : Session}
    (hs : (h.start program arguments).run s = (.ok finished, s')) :
    ∃ place, h.startable s.files program arguments = .ok place ∧
      finished = (h.behave place arguments s.files).1 ∧
      s'.files = (h.behave place arguments s.files).2 := by
  rw [start, Task.run_ofRun] at hs
  split at hs
  · cases hs
  · next place heq =>
    cases hs
    exact ⟨place, heq, rfl, rfl⟩

namespace Toolchain

/-- What a compiler is told to make a module. -/
def moduleArguments (h : Host) (spec : ExtensionSpec) (context : CompileContext)
    (c : Compiler) : List String :=
  c.invocation.2 ++ compileArguments spec context
    (spec.artifactPath context.buildLib context.platform) c.style h.environment.linkerFlags

variable {h : Host} {target : String} {verbose : Bool} {spec : ExtensionSpec}
  {context : CompileContext} {s s' : Session}

theorem tell_files {line : String} {u : Unit} (ht : (tell verbose line).run s = (.ok u, s')) :
    s'.files = s.files := by
  cases verbose <;> cases ht <;> rfl

theorem judge_ok {finished : Finished} {output : String} (hj : judge finished = .ok output) :
    finished.succeeded = true := by
  unfold judge at hj
  cases hs : finished.succeeded
  · simp [hs] at hj
  · rfl

theorem compilerFor_ok {fs : FileSystem} {c : Compiler} (hc : compilerFor h fs target = .ok c) :
    Compiler.resolve h fs target = some c := by
  unfold compilerFor at hc
  split at hc
  · next heq =>
    cases hc
    exact heq
  · cases hc

/-- The directories that have to be there before a module is compiled. -/
def moduleDirectories (spec : ExtensionSpec) (context : CompileContext) : List Path :=
  (spec.artifactPath context.buildLib context.platform).parent.toList ++ [context.buildTemp]

/-- A compilation that went well, from the directories to the end of the compiler. -/
theorem compileOn_ok {output : String} {artifact : Path}
    (ho : (compileOn h target verbose spec context).run s = (.ok (output, artifact), s')) :
    artifact = spec.artifactPath context.buildLib context.platform ∧
      ∃ c ready place, Compiler.resolve h s.files target = some c ∧
        (makeDirectories (moduleDirectories spec context)).run s = (.ok (), ready) ∧
        h.startable ready.files c.invocation.1 (moduleArguments h spec context c) = .ok place ∧
        (h.behave place (moduleArguments h spec context c) ready.files).1.succeeded = true ∧
        s'.files = (h.behave place (moduleArguments h spec context c) ready.files).2 := by
  rw [compileOn, Task.run_bind, Task.run_files] at ho
  obtain ⟨compiler, s₀, hcompiler, h₀⟩ := Task.run_bind_ok ho
  obtain ⟨_, ready, hdirs, h₁⟩ := Task.run_bind_ok h₀
  obtain ⟨_, s₁, htell, h₂⟩ := Task.run_bind_ok h₁
  obtain ⟨_, s₂, htell', h₃⟩ := Task.run_bind_ok h₂
  obtain ⟨_, s₃, hnote, h₄⟩ := Task.run_bind_ok h₃
  obtain ⟨finished, after, hstart, h₅⟩ := Task.run_bind_ok h₄
  obtain ⟨output', s₄, hjudge, h₆⟩ := Task.run_bind_ok h₅
  obtain ⟨_, s₅, htell'', h₇⟩ := Task.run_bind_ok h₆
  obtain ⟨hfound, rfl⟩ := Task.run_ofExcept_ok hcompiler
  obtain ⟨hgood, hkept⟩ := Task.run_ofExcept_ok hjudge
  cases h₇
  have hready : s₃.files = ready.files := by
    cases hnote
    exact (tell_files htell').trans (tell_files htell)
  obtain ⟨place, hplace, hdone, hafter⟩ := Host.start_ok (Task.run_explain_ok hstart)
  rw [hready] at hplace hdone hafter
  refine ⟨rfl, compiler, ready, place, compilerFor_ok hfound, hdirs, hplace, ?_, ?_⟩
  · have hsucceeded := judge_ok hgood
    rwa [hdone] at hsucceeded
  · rw [tell_files htell'', hkept, hafter]
    rfl

/-- What the toolchain of a host hands over is at the module's own path. -/
theorem ofHost_delivered (n : Nat) {artifact : Path}
    (hd : ((ofHost h target verbose).compile n spec context s).1.delivered = some artifact) :
    artifact = spec.artifactPath context.buildLib context.platform := by
  unfold ofHost at hd
  dsimp only at hd
  split at hd
  · next output a s' ho =>
    have ha : a = artifact := by simpa [CompileResult.delivered, CompileResult.compiled] using hd
    rw [← ha]
    exact (compileOn_ok ho).1
  · simp [CompileResult.delivered, CompileResult.failed] at hd

/-- What is handed over was left by the compiler. -/
theorem ofHost_compiled (n : Nat) {artifact : Path}
    (hd : ((ofHost h target verbose).compile n spec context s).1.delivered = some artifact) :
    ∃ c ready place, Compiler.resolve h s.files target = some c ∧
      (makeDirectories (moduleDirectories spec context)).run s = (.ok (), ready) ∧
      h.startable ready.files c.invocation.1 (moduleArguments h spec context c) = .ok place ∧
      (h.behave place (moduleArguments h spec context c) ready.files).1.succeeded = true ∧
      ((ofHost h target verbose).compile n spec context s).2.files =
        (h.behave place (moduleArguments h spec context c) ready.files).2 := by
  unfold ofHost at hd ⊢
  dsimp only at hd ⊢
  split at hd
  · next output a s' ho => exact (compileOn_ok ho).2
  · simp [CompileResult.delivered, CompileResult.failed] at hd

theorem ofHost_moduleName (n : Nat) (s : Session) :
    ((ofHost h target verbose).compile n spec context s).1.moduleName = spec.fullName := by
  unfold ofHost
  dsimp only
  split <;> rfl

/-! ### What a compilation does to files -/

section
variable {R : FileSystem → FileSystem → Prop} (hR : FileSystem.Composes R)
  (hdirs : ∀ fs p, R fs (FileSystem.createDirectories fs p).2)
  (hh : ∀ c place fs, (∃ fs, Compiler.resolve h fs target = some c) →
    R fs (h.behave place (moduleArguments h spec context c) fs).2)
include hR

theorem tell_moves (line : String) : Task.Moves R (tell verbose line) := by
  cases verbose
  · exact .pure hR ()
  · exact .print hR line

include hdirs

theorem makeDirectories_moves (directories : List Path) :
    Task.Moves R (makeDirectories directories) := by
  induction directories with
  | nil => exact .pure hR ()
  | cons directory rest ih => exact .bind hR (.onFiles fun fs => hdirs fs directory) fun _ => ih

include hh

/-- Directories are created, and the compiler does what it does. -/
theorem compileOn_moves : Task.Moves R (compileOn h target verbose spec context) := by
  refine .bind hR (.files hR) fun fs => .bind_ofExcept hR fun compiler hcompiler => ?_
  have hresolved := compilerFor_ok hcompiler
  refine .bind hR (makeDirectories_moves hR hdirs _) fun _ => ?_
  refine .bind hR (tell_moves hR _) fun _ => .bind hR (tell_moves hR _) fun _ => ?_
  refine .bind hR (.note hR _) fun _ => ?_
  have hstarted := fun place fs => hh compiler place fs ⟨_, hresolved⟩
  refine .bind hR (.explain (Host.start_moves hR hstarted _)) fun finished => ?_
  refine .bind hR (.ofExcept hR _) fun output => .bind hR (tell_moves hR _) fun _ => ?_
  exact .pure hR _

theorem ofHost_moves (n : Nat) (s : Session) :
    R s.files ((ofHost h target verbose).compile n spec context s).2.files := by
  have hmoves : R s.files ((compileOn h target verbose spec context).run s).2.files :=
    compileOn_moves hR hdirs hh s
  unfold ofHost
  dsimp only
  split
  · next heq =>
    rw [heq] at hmoves
    exact hmoves
  · next heq =>
    rw [heq] at hmoves
    exact hmoves

end

end Toolchain
end StableWheel
