import StableWheel.Proofs.FileSystem.Changed
import StableWheel.Proofs.Package.Copies

/-! What staging has done by the time it ends, well or not.

Staging may stop at any file. What it has done until then are copies, each one for a package, and
room that was made for them (`stage_copying`): only the places of the copies change
(`Copying.changed`), and these are where the targets headed from the beginning
(`Copying.heads`). -/
namespace StableWheel.PackageLayout
open FileSystem

/-- Copies that were made in order, each with the package it was made for, and room that was made
for copies. -/
inductive Copying (l : PackageLayout) (root lib : Path) :
    FileSystem → List (String × Copy) → FileSystem → Prop where
  | nil {fs} : Copying l root lib fs [] fs
  | room {before cs after} (target : Path) :
      Copying l root lib (makeRoom before target).2 cs after → Copying l root lib before cs after
  | copy {package c before between cs after} : package ∈ l.packages →
      c.target = targetOf (root.join (l.sourceDir package)) (destination lib package) c.source →
      c.Made before between → Copying l root lib between cs after →
      Copying l root lib before ((package, c) :: cs) after

variable {l : PackageLayout} {root lib : Path} {before after : FileSystem}
  {cs : List (String × Copy)}

theorem Copying.append {between : FileSystem} {cs' : List (String × Copy)}
    (h : Copying l root lib before cs between) (h' : Copying l root lib between cs' after) :
    Copying l root lib before (cs ++ cs') after := by
  induction h with
  | nil => exact h'
  | room target _ ih => exact .room target (ih h')
  | copy hpackage htarget hmade _ ih => exact .copy hpackage htarget hmade (ih h')

/-- Nothing is copied unless it is for a package. -/
theorem Copying.eq_nil (h : Copying l root lib before cs after) (hnone : l.packages = []) :
    cs = [] := by
  induction h with
  | nil => rfl
  | room _ _ ih => exact ih
  | copy hpackage => exact absurd hpackage (by rw [hnone]; exact List.not_mem_nil)

/-! ### Staging -/

/-- What staging may do to files. -/
def Copied (l : PackageLayout) (root lib : Path) (before after : FileSystem) : Prop :=
  ∃ cs, Copying l root lib before cs after

theorem copied_composes (l : PackageLayout) (root lib : Path) :
    Composes (Copied l root lib) where
  refl fs := ⟨[], .nil⟩
  trans := by
    rintro a b c ⟨cs, h⟩ ⟨cs', h'⟩
    exact ⟨cs ++ cs', h.append h'⟩

/-- A file that is not copied leaves the room that was made for it at most. -/
theorem copyInto_error {directory dest file : Path} {e : StageError} {s s' : Session}
    (h : (copyInto directory dest file).run s = (.error e, s')) :
    s'.files = (makeRoom s.files (targetOf directory dest file)).2 := by
  rw [copyInto] at h
  rcases Task.run_bind_cases _ _ s with ⟨e', made, hmake, hstop⟩ | ⟨u, made, hmake, hgo⟩
  · rw [hstop] at h
    cases h
    exact (Task.run_onFiles_error hmake).2
  rw [hgo] at h
  have hmade : made.files = (makeRoom s.files (targetOf directory dest file)).2 := by
    rw [(Task.run_onFiles_ok hmake).2]
  rcases Task.run_bind_cases _ _ made with ⟨e', copied, hcopy, hstop⟩ | ⟨u, copied, hcopy, hgo⟩
  · rw [hstop] at h
    cases h
    obtain ⟨⟨e'', hfailed⟩, hleft⟩ := Task.run_onFiles_error hcopy
    rcases copy_cases made.files file (targetOf directory dest file) with
      ⟨e, hnone⟩ | ⟨origin, f, place, -, -, -, hdone⟩
    · rw [hleft, hnone, hmade]
    · rw [hdone] at hfailed
      cases hfailed
  · rw [hgo] at h
    cases h

theorem copyInto_copied {package : String} (hpackage : package ∈ l.packages) (file : Path) :
    Task.Moves (Copied l root lib)
      (copyInto (root.join (l.sourceDir package)) (destination lib package) file) := by
  intro s
  rcases hrun : (copyInto (root.join (l.sourceDir package)) (destination lib package) file).run s
    with ⟨e | target, s'⟩
  · exact ⟨[], .room _ (by rw [copyInto_error hrun]; exact .nil)⟩
  · obtain ⟨c, hpair, -, hmade⟩ := copyInto_ok hrun
    obtain ⟨hsource, htarget⟩ := Prod.mk.inj hpair
    exact ⟨[(package, c)], .copy hpackage (by rw [htarget, hsource]) hmade .nil⟩

section
variable {package : String} (hpackage : package ∈ l.packages)
include hpackage

theorem copyAll_copied (files : List Path) : Task.Moves (Copied l root lib)
    (copyAll (root.join (l.sourceDir package)) (destination lib package) files) := by
  have hR := copied_composes l root lib
  induction files with
  | nil => exact .pure hR _
  | cons file rest ih =>
    exact .bind hR (copyInto_copied hpackage file) fun _ => .bind hR ih fun _ => .pure hR _

theorem copyData_copied (patterns : List String) : Task.Moves (Copied l root lib)
    (copyData (root.join (l.sourceDir package)) (destination lib package) patterns) := by
  have hR := copied_composes l root lib
  induction patterns with
  | nil => exact .pure hR _
  | cons pattern rest ih =>
    refine .bind hR (.files hR) fun fs => .bind hR (.ofExcept hR _) fun found => ?_
    exact .bind hR (copyAll_copied hpackage found) fun _ => .bind hR ih fun _ => .pure hR _

theorem stagePackage_copied : Task.Moves (Copied l root lib) (l.stagePackage root lib package) := by
  have hR := copied_composes l root lib
  refine .bind hR (.files hR) fun fs => ?_
  dsimp only
  split
  · exact .bind hR (.throw hR _) fun _ => .bind hR (.files hR) fun fs =>
      .bind hR (.ofExcept hR _) fun found => .bind hR (copyAll_copied hpackage found) fun _ =>
        .bind hR (copyData_copied hpackage _) fun _ => .bind hR (.note hR _) fun _ => .pure hR _
  · exact .bind hR (.files hR) fun fs => .bind hR (.ofExcept hR _) fun found =>
      .bind hR (copyAll_copied hpackage found) fun _ =>
        .bind hR (copyData_copied hpackage _) fun _ => .bind hR (.note hR _) fun _ => .pure hR _

end

theorem stageEach_copied (packages : List String) (h : ∀ package ∈ packages, package ∈ l.packages) :
    Task.Moves (Copied l root lib) (l.stageEach root lib packages) := by
  have hR := copied_composes l root lib
  induction packages with
  | nil => exact .pure hR _
  | cons package rest ih =>
    refine .bind hR (stagePackage_copied (h package (List.mem_cons_self ..))) fun _ => ?_
    refine .bind hR (ih fun package hpackage => ?_) fun _ => .pure hR _
    exact h package (List.mem_cons_of_mem _ hpackage)

/-- However staging ends, it has made copies. -/
theorem stage_copied (l : PackageLayout) (root lib : Path) :
    Task.Moves (Copied l root lib) (l.stage root lib) :=
  .bind (copied_composes l root lib) (stageEach_copied l.packages fun _ h => h) fun _ =>
    .pure (copied_composes l root lib) _

/-! ### What copies do -/

theorem makeRoom_steady {base : FileSystem} {places : Location → Prop} (fs : FileSystem)
    (target : Path) : Steady base places fs (makeRoom fs target).2 :=
  makeRoom_moves steady_composes.refl createDirectories_steady fs target

theorem Copy.Made.steady {base : FileSystem} {c : Copy} (h : c.Made before after) :
    Steady base (· = c.place) before after := by
  intro hlinks htree
  refine ⟨hlinks.trans (h.grows htree).sameLinks, h.keepsTree htree, fun place hchanged => ?_⟩
  obtain ⟨room, f, hroom, -, -, -, rfl⟩ := h
  have hmade : Steady base (fun _ => False) before room := by
    have hsteady : Steady base (fun _ => False) before (makeRoom before c.target).2 :=
      makeRoom_steady before c.target
    rwa [hroom] at hsteady
  rcases hchanged.of_trans with hfirst | hput
  · exact ((hmade hlinks htree).2.2 place hfirst).elim
  · exact changed_put hput

theorem Copies.steady {base : FileSystem} {cs : List Copy} (h : Copies before cs after) :
    Steady base (fun place => ∃ c ∈ cs, c.place = place) before after := by
  induction h with
  | nil => exact steady_composes.refl _
  | @cons c cs _ _ _ hmade _ ih =>
    refine steady_composes.trans (hmade.steady.mono fun place heq => ?_)
      (ih.mono fun place ⟨c', hc', hplace⟩ => ?_)
    · exact ⟨c, List.mem_cons_self .., heq.symm⟩
    · exact ⟨c', List.mem_cons_of_mem _ hc', hplace⟩

/-- Only the places of the copies change. -/
theorem Copying.steady {base : FileSystem} (h : Copying l root lib before cs after) :
    Steady base (fun place => ∃ c ∈ cs, c.2.place = place) before after := by
  induction h with
  | nil => exact steady_composes.refl _
  | room target _ ih => exact steady_composes.trans (makeRoom_steady _ target) ih
  | @copy package c before between cs after _ _ hmade _ ih =>
    have hfirst : Steady base (fun place => ∃ c' ∈ (package, c) :: cs, c'.2.place = place) before
        between :=
      hmade.steady.mono fun place heq => ⟨(package, c), List.mem_cons_self .., heq.symm⟩
    exact steady_composes.trans hfirst (ih.mono fun place ⟨c', hc', hplace⟩ =>
      ⟨c', List.mem_cons_of_mem _ hc', hplace⟩)

/-- Every copy was made for a package, and its place is where its target heads. -/
theorem Copying.heads {base : FileSystem} (h : Copying l root lib before cs after)
    (hlinks : SameLinks base before) (htree : before.IsTree) {package : String} {c : Copy}
    (hc : (package, c) ∈ cs) : package ∈ l.packages ∧
      c.target = targetOf (root.join (l.sourceDir package)) (destination lib package) c.source ∧
      base.Heads .followed c.target c.place := by
  induction h with
  | nil => cases hc
  | @room before cs after target _ ih =>
    have hroom : Steady base (fun _ => False) before (makeRoom before target).2 :=
      makeRoom_steady before target
    obtain ⟨hlinks, htree, -⟩ := hroom hlinks htree
    exact ih hlinks htree hc
  | copy hpackage htarget hmade _ ih =>
    have hsteady := hmade.steady hlinks htree
    rcases List.mem_cons.mp hc with heq | hc
    · cases heq
      refine ⟨hpackage, htarget, ?_⟩
      exact hsteady.1.symm.heads (heads_of_resolve (hmade.resolve_target htree))
    · exact ih hsteady.1 hsteady.2.1 hc

end StableWheel.PackageLayout
