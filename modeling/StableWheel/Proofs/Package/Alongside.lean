import StableWheel.Proofs.FileSystem.Around
import StableWheel.Proofs.Package.Copies

/-! Staging the same packages in two file systems.

A round that looks only at what is outside of some place selects the same files wherever this is
the same (`Round.Outside`), as a round over the modules of a directory does that is aside
(`Aside.moduleRound`). Copies of the same files keep two file systems abreast, whatever is at their
targets before (`Rounds.abreast`). -/
namespace StableWheel.PackageLayout
open FileSystem

variable {top : Location} {start start' a b a' b' : FileSystem}

theorem makeRoom_abreast (h : Abreast top start start' a b) {target : Path}
    (ha : makeRoom a target = (.ok (), a')) (hb : makeRoom b target = (.ok (), b')) :
    Abreast top start start' a' b' := by
  unfold makeRoom at ha hb
  cases hparent : target.parent with
  | none =>
    rw [hparent] at ha hb
    cases ha
    cases hb
    exact h
  | some above =>
    rw [hparent] at ha hb
    exact h.createDirectories ha hb

/-! ### Copies -/

/-- A path that heads to no place at or below some place. -/
def Spared (top : Location) (fs : FileSystem) (p : Path) : Prop :=
  ∀ place, fs.Heads .followed p place → ¬ top <+: place

theorem Copy.Made.abreast {c c' : Copy} (h : Abreast top start start' a b) (ha : c.Made a a')
    (hb : c'.Made b b') (hsource : c'.source = c.source) (htarget : c'.target = c.target)
    (hspared : Spared top a c.source) : Abreast top start start' a' b' := by
  obtain ⟨room, f, hroom, hfound, hr, hn, rfl⟩ := ha
  obtain ⟨room', f', hroom', hfound', hr', hn', rfl⟩ := hb
  rw [hsource] at hfound'
  rw [htarget] at hroom' hr'
  have hrooms := makeRoom_abreast h hroom hroom'
  obtain ⟨horigin, hf⟩ := find_iff.mp hfound
  obtain ⟨horigin', hf'⟩ := find_iff.mp hfound'
  have hlinks := makeRoom_moves .refl createDirectories_grows a c.target
  rw [hroom] at hlinks
  -- the source is outside, so it is the same file in the same place
  have hout := hspared c.origin (hlinks.sameLinks.symm.heads (heads_of_resolve horigin))
  have hsame : c'.origin = c.origin :=
    (heads_of_resolve horigin').unique (hrooms.agree.sameLinks.heads (heads_of_resolve horigin))
  have hfile : f' = f := by
    rw [hsame, ← hrooms.agree.outside c.origin hout, hf] at hf'
    cases hf'
    rfl
  obtain ⟨hplace, hput⟩ := hrooms.put hr hn hr' hn' (leaves f c.origin c.place)
  rwa [hfile, hsame, hplace]

theorem Copies.abreast {cs cs' : List Copy} (h : Abreast top start start' a b)
    (ha : Copies a cs a') (hb : Copies b cs' b')
    (hpairs : cs.map (fun c => (c.source, c.target)) = cs'.map fun c => (c.source, c.target))
    (hspared : ∀ c ∈ cs, Spared top a c.source) : Abreast top start start' a' b' := by
  induction ha generalizing b cs' with
  | nil =>
    obtain rfl : cs' = [] := List.map_eq_nil_iff.mp hpairs.symm
    cases hb
    exact h
  | @cons c rest before between after hmade _ ih =>
    cases hb with
    | nil => cases hpairs
    | @cons c' rest' _ between' _ hmade' hrest' =>
      obtain ⟨hpair, hpairs⟩ := List.cons.inj hpairs
      obtain ⟨hsource, htarget⟩ := Prod.mk.inj hpair
      have hfirst := hmade.abreast h hmade' hsource.symm htarget.symm
        (hspared c (List.mem_cons_self ..))
      refine ih hfirst hrest' hpairs fun c' hc' place hplace => ?_
      exact hspared c' (List.mem_cons_of_mem _ hc') place
        ((hmade.grows h.agree.left.tree).sameLinks.symm.heads hplace)

/-! ### Rounds -/

/-- A round that selects the same files whatever there is at a place and below it, and none from
there, as long as nobody touches a link. -/
structure Round.Outside (fs : FileSystem) (top : Location) (r : Round) : Prop where
  same : ∀ a b, SameLinks fs a → Agree top a b → r.select a = r.select b
  spared : ∀ a, SameLinks fs a → Plain top a → ∀ files, r.select a = .ok files →
    ∀ p ∈ files, Spared top fs p

theorem Rounds.abreast {rs : List Round} {cs cs' : List Copy} (h : Abreast top start start' a b)
    (hrounds : ∀ r ∈ rs, r.Outside start top) (ha : Rounds rs a cs a') (hb : Rounds rs b cs' b') :
    Abreast top start start' a' b' := by
  induction ha generalizing b cs' with
  | nil =>
    cases hb
    exact h
  | @cons r rest before between after files cs more hselect hpairs hcopies _ ih =>
    cases hb with
    | @cons _ _ _ between' _ files' cs' more' hselect' hpairs' hcopies' hrest' =>
      have hr := hrounds r (List.mem_cons_self ..)
      obtain rfl : files' = files := by
        rw [← hr.same _ _ h.links h.agree, hselect] at hselect'
        cases hselect'
        rfl
      have hspared : ∀ c ∈ cs, Spared top before c.source := by
        intro c hc place hplace
        have hmem : (c.source, c.target) ∈ files'.map r.pair := by
          rw [← hpairs]
          exact List.mem_map_of_mem hc
        obtain ⟨p, hp, hpair⟩ := List.mem_map.mp hmem
        rw [← (Prod.mk.inj hpair).1] at hplace
        exact hr.spared _ h.links h.agree.left _ hselect p hp place (h.links.symm.heads hplace)
      have hfirst := hcopies.abreast h hcopies' (hpairs.trans hpairs'.symm) hspared
      exact ih hfirst (fun r hr => hrounds r (List.mem_cons_of_mem _ hr)) hrest'

/-! ### Modules outside -/

section
variable {fs : FileSystem} {directory : Path} {room : Location}

/-- A directory whose path goes around a place, with no links in it, and that is neither the place
nor in it nor right above it. -/
structure Aside (fs : FileSystem) (top : Location) (directory : Path) (room : Location) : Prop where
  around : Around fs top (origin fs.workingDirectory directory) (Step.named directory) room
  outside : ¬ top <+: room
  notAbove : ∀ name, room ++ [name] ≠ top
  unlinked : ∀ name target, fs.lookup (room ++ [name]) ≠ some (.link target)

variable (h : Aside fs top directory room)
include h

theorem Aside.not_below (name : String) : ¬ top <+: room ++ [name] := by
  rw [List.prefix_concat_iff]
  exact not_or.mpr ⟨(h.notAbove name).symm, h.outside⟩

theorem Aside.around_name {name : String} (hname : Nameable name) :
    Around fs top (origin fs.workingDirectory (directory.join ⟨name⟩))
      (Step.ofPath (directory.join ⟨name⟩)) (room ++ [name]) := by
  rw [Step.ofPath_join_name directory hname, origin_join hname.isAbsolute]
  exact h.around.append (.enter (h.not_below name) (h.unlinked name) .here)

theorem Aside.readDirectory (hlinks : SameLinks fs a) (hagree : Agree top a b) :
    a.readDirectory directory = b.readDirectory directory := by
  have hpath :
      Around fs top (origin fs.workingDirectory directory) (Step.ofPath directory) room := by
    obtain ⟨last, hlast, hsteps⟩ := Step.ofPath_eq directory
    rw [hsteps]
    refine h.around.append ?_
    rcases hlast with rfl | rfl
    · exact .here
    · exact .inside .here
  unfold FileSystem.readDirectory
  rw [← hpath.find h.outside hlinks hagree.sameOutside]
  rcases hfound : a.find directory .followed with e | ⟨place, n⟩
  · rfl
  · have hheads : fs.Heads .followed directory room := hpath.aims
    obtain rfl : place = room :=
      (heads_of_resolve (find_iff.mp hfound).1).unique (hlinks.heads hheads)
    have hnames : a.names place = b.names place := by
      refine names_eq hagree.left.tidy hagree.right.tidy fun name => ?_
      rw [hagree.outside _ (h.not_below name)]
    cases n with
    | directory => exact congrArg Except.ok hnames
    | file _ => rfl
    | link _ => rfl

theorem Aside.isModule {name : String} (hname : Nameable name) (hlinks : SameLinks fs a)
    (hagree : Agree top a b) :
    PackageLayout.isModule a (directory.join ⟨name⟩) =
      PackageLayout.isModule b (directory.join ⟨name⟩) := by
  unfold PackageLayout.isModule isFile status
  rw [(h.around_name hname).find (h.not_below name) hlinks hagree.sameOutside]

/-- The modules of a directory that is aside are selected whatever is there. -/
theorem Aside.moduleRound (dest : Path) :
    (moduleRound directory dest).Outside fs top := by
  constructor
  · intro a b hlinks hagree
    rw [select_moduleRound, select_moduleRound]
    unfold modulesIn
    rw [← h.readDirectory hlinks hagree]
    rcases hread : a.readDirectory directory with e | names
    · rfl
    · have hsame : (names.map fun name => directory.join ⟨name⟩).filter
            (PackageLayout.isModule a) =
          (names.map fun name => directory.join ⟨name⟩).filter (PackageLayout.isModule b) := by
        refine List.filter_congr fun p hp => ?_
        obtain ⟨name, hname, rfl⟩ := List.mem_map.mp hp
        exact h.isModule (hagree.left.tidy.readDirectory hread name hname) hlinks hagree
      dsimp only
      rw [hsame]
  · intro a hlinks hplain files hselect p hp place hplace
    rw [select_moduleRound] at hselect
    obtain ⟨names, name, hread, hname, rfl, -⟩ := (mem_modulesIn hselect).mp hp
    have hheads : fs.Heads .followed (directory.join ⟨name⟩) (room ++ [name]) :=
      (h.around_name (hplain.tidy.readDirectory hread name hname)).aims
    rw [hplace.unique hheads]
    exact h.not_below name

end

end StableWheel.PackageLayout
