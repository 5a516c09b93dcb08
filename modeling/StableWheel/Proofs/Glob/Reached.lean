import StableWheel.Proofs.FileSystem.Naming
import StableWheel.Proofs.Glob.Reading
import StableWheel.Proofs.Path.Shorter

/-! What a search below a directory finds.

The pattern for files below a directory starts with the pieces of the directory's own path, each of
which stands for itself. Whatever is reached on the way has the first of these pieces behind it and
the others still ahead (`Ahead`), so what is found in the end has all of them: it is below the
directory by its components (`found_below`). -/
namespace StableWheel.Glob
open FileSystem

/-! ### Steps -/

/-- No element stands for a separator. -/
def Whole (component : List Token) : Prop := Token.char '/' ∉ component

/-- Some pieces that stand for themselves come first among components. -/
structure Ahead (front : List (List Char)) (components : List (List Token)) : Prop where
  pieces : ∀ piece ∈ front, '/' ∉ piece
  rest : ∃ rest, components = front.map literally ++ rest ∧ ∀ component ∈ rest, Whole component

/-- All of some components are behind, or ahead. -/
structure Toward (base : List Path.Component) (front : List (List Char)) (p : Path) : Prop where
  absolute : p.isAbsolute = true
  steps : base <+: p.components ++ front.filterMap Path.stepOf

variable {base : List Path.Component} {front : List (List Char)} {piece : List Char}
  {component : List Token} {rest components : List (List Token)} {p : Path} {name : String}

theorem Ahead.tail (h : Ahead (piece :: front) (component :: rest)) :
    '/' ∉ piece ∧ component = literally piece ∧ Ahead front rest := by
  obtain ⟨more, heq, hwhole⟩ := h.rest
  rw [List.map_cons, List.cons_append] at heq
  obtain ⟨rfl, rfl⟩ := List.cons.inj heq
  exact ⟨h.pieces piece (List.mem_cons_self ..), rfl,
    fun piece hpiece => h.pieces piece (List.mem_cons_of_mem _ hpiece), more, rfl, hwhole⟩

theorem ahead_nil : Ahead [] components ↔ ∀ component ∈ components, Whole component := by
  constructor
  · rintro ⟨-, rest, rfl, hwhole⟩
    simpa using hwhole
  · exact fun hwhole => ⟨by simp, components, rfl, hwhole⟩

theorem Ahead.front_nil (h : Ahead front []) : front = [] := by
  obtain ⟨rest, heq, -⟩ := h.rest
  exact List.map_eq_nil_iff.mp (List.append_eq_nil_iff.mp heq.symm).1

theorem components_join_absolute (hp : p.isAbsolute = true) (hname : '/' ∉ name.toList) :
    (p.join ⟨name⟩).isAbsolute = true ∧
      (p.join ⟨name⟩).components = p.components ++ Path.stepsIn name.toList :=
  ⟨Path.isAbsolute_join_left hp,
    Path.components_join (Path.isEmpty_of_absolute hp) (Path.isAbsolute_name hname)⟩

/-- From the root nothing is the working directory. -/
theorem below_of_absolute (hp : p.isAbsolute = true) : below p name = p.join ⟨name⟩ := by
  have hother : p.same ⟨"."⟩ = false := by
    rw [Path.same, Path.components_of_absolute hp]
    rfl
  rw [below, hother, if_neg Bool.false_ne_true]

theorem Toward.join (h : Toward base (piece :: front) p) (hname : name.toList = piece)
    (hpiece : '/' ∉ piece) : Toward base front (p.join ⟨name⟩) := by
  obtain ⟨habsolute, hcomponents⟩ := components_join_absolute h.absolute (hname ▸ hpiece)
  refine ⟨habsolute, ?_⟩
  have hsteps := h.steps
  rw [hcomponents, hname, Path.stepsIn_piece hpiece, List.append_assoc]
  rw [List.filterMap_cons] at hsteps
  cases hstep : Path.stepOf piece with
  | none => simpa [hstep] using hsteps
  | some step => simpa [hstep] using hsteps

theorem Toward.join_more (h : Toward base [] p) (hname : '/' ∉ name.toList) :
    Toward base [] (p.join ⟨name⟩) := by
  obtain ⟨habsolute, hcomponents⟩ := components_join_absolute h.absolute hname
  have hsteps := h.steps
  rw [List.filterMap_nil, List.append_nil] at hsteps
  refine ⟨habsolute, ?_⟩
  rw [hcomponents, List.filterMap_nil, List.append_nil]
  exact hsteps.trans (List.prefix_append _ _)

theorem fileName_join (hp : p.isAbsolute = true) (hname : Nameable name) :
    (p.join ⟨name⟩).fileName = some name := by
  rw [Path.fileName, (components_join_absolute hp hname.2.2.2).2, Path.stepsIn_name hname,
    List.getLast?_concat]

/-! ### What is left to look at -/

/-- What is left to look at after a component. -/
def following (fs : FileSystem) (rest : List (List Token)) (p : Path) : List Pending :=
  if rest.isEmpty then [.found (reach fs p)] else expand fs rest (reach fs p)

/-- How something left to look at comes of a component: it is looked up by its name, or the directory
cannot be read, or it goes on with dots that fit, or it is an entry of the directory. -/
theorem mem_expand {fs : FileSystem} {r : Reached} {pending : Pending}
    (h : pending ∈ expand fs (component :: rest) r) :
    (∃ cs, literal? component = some cs ∧
      pending ∈ following fs rest (below r.path (String.ofList cs))) ∨
    (∃ e, pending = .unreadable r.path e) ∨
    literal? component = none ∧ ∃ names, fs.readDirectory r.path = .ok names ∧
      ((∃ name, (name = ".." ∨ name = ".") ∧ fits component name.toList = true ∧
        pending ∈ following fs rest (r.path.join ⟨name⟩)) ∨
      ∃ name ∈ names, pending = .entry (reach fs (below r.path name)) (component :: rest)) := by
  unfold expand at h
  dsimp only at h
  split at h
  · next cs hliteral =>
    obtain ⟨-, h⟩ := List.mem_ite_nil_right.mp h
    exact .inl ⟨cs, hliteral, h⟩
  · next hspecial =>
    refine .inr ?_
    split at h
    · cases h
    · split at h
      · next e _ =>
        rw [List.mem_singleton] at h
        exact .inl ⟨e, h⟩
      · next names hread =>
        refine .inr ⟨hspecial, names, hread, ?_⟩
        rcases List.mem_append.mp h with hdots | hentry
        · obtain ⟨name, hname, hdots⟩ := List.mem_flatMap.mp hdots
          obtain ⟨-, hname⟩ := List.mem_ite_nil_right.mp hname
          obtain ⟨hname, hfits⟩ := List.mem_filter.mp hname
          exact .inl ⟨name, by simpa using hname, hfits, hdots⟩
        · obtain ⟨name, hname, rfl⟩ := List.mem_map.mp hentry
          exact .inr ⟨name, hname, rfl⟩

/-- Whatever comes of it is below the base. -/
inductive Pending.Leads (base : List Path.Component) : Pending → Prop where
  | found {r} : Toward base [] r.path → Leads base (.found r)
  | unreadable {p e} : Leads base (.unreadable p e)
  /-- All pieces are behind. -/
  | inside {r components} : Toward base [] r.path → Ahead [] components →
      Leads base (.entry r components)
  /-- A name that may be the next piece. -/
  | onTheWay {r piece front rest} : Ahead front rest →
      (∀ name, r.path.fileName = some name → name.toList = piece → Toward base front r.path) →
      Leads base (.entry r (literally piece :: rest))

theorem result_below {r : Reached} {wantsDirectory : Bool} (h : Toward base [] r.path)
    (hp : .ok p ∈ r.result wantsDirectory) : base <+: p.components := by
  obtain ⟨-, hp⟩ := List.mem_ite_nil_left.mp hp
  rw [List.mem_singleton] at hp
  cases hp
  simpa using h.steps

section
variable {fs : FileSystem} (htidy : fs.Tidy)
include htidy

/-- The induction is on the components; a piece that is still ahead is taken by its name or, if it
holds special characters, found among the names in the directory. -/
theorem expand_leads {r : Reached} (hahead : Ahead front components)
    (htoward : Toward base front r.path) :
    ∀ pending ∈ expand fs components r, pending.Leads base := by
  induction components generalizing front r with
  | nil => exact fun pending hpending => absurd hpending List.not_mem_nil
  | cons component rest ih =>
    have hfollowing : ∀ {front : List (List Char)} {p : Path}, Ahead front rest →
        Toward base front p → ∀ pending ∈ following fs rest p, pending.Leads base := by
      intro front p hnext htoward pending hpending
      unfold following at hpending
      split at hpending
      · next hempty =>
        obtain rfl := List.isEmpty_iff.mp hempty
        obtain rfl := hnext.front_nil
        rw [List.mem_singleton] at hpending
        rw [hpending]
        exact .found htoward
      · exact ih (r := reach fs p) hnext htoward pending hpending
    intro pending hpending
    cases front with
    | nil =>
      have hwhole := ahead_nil.mp hahead
      have hrest : Ahead [] rest := ahead_nil.mpr fun c hc => hwhole c (List.mem_cons_of_mem _ hc)
      rcases mem_expand hpending with ⟨cs, hliteral, hnext⟩ | ⟨e, rfl⟩ |
        ⟨-, names, hread, ⟨name, hdots, -, hnext⟩ | ⟨name, hname, rfl⟩⟩
      · rw [below_of_absolute htoward.absolute] at hnext
        refine hfollowing hrest (htoward.join_more ?_) pending hnext
        rw [String.toList_ofList]
        exact fun hmem => hwhole component (List.mem_cons_self ..)
          (literal?_char_mem hliteral _ hmem)
      · exact .unreadable
      · refine hfollowing hrest (htoward.join_more ?_) pending hnext
        rcases hdots with rfl | rfl <;> decide
      · have hnameable := htidy.readDirectory hread name hname
        rw [below_of_absolute htoward.absolute]
        exact .inside (htoward.join_more hnameable.2.2.2) hahead
    | cons piece front =>
      obtain ⟨hpiece, rfl, hrest⟩ := hahead.tail
      rcases mem_expand hpending with ⟨cs, hliteral, hnext⟩ | ⟨e, rfl⟩ |
        ⟨hspecial, names, hread, ⟨name, hdots, hfits, -⟩ | ⟨name, hname, rfl⟩⟩
      · obtain rfl := literal?_literally hliteral
        rw [below_of_absolute htoward.absolute] at hnext
        exact hfollowing hrest (htoward.join String.toList_ofList hpiece) pending hnext
      · exact .unreadable
      · -- dots are not special, so they would have been looked up
        have hplain : literal? (literally piece) = some piece := by
          rw [← fits_literally.mp hfits]
          rcases hdots with rfl | rfl <;> rfl
        rw [hplain] at hspecial
        cases hspecial
      · have hnameable := htidy.readDirectory hread name hname
        rw [below_of_absolute htoward.absolute]
        refine .onTheWay hrest fun name' hname' heq => ?_
        have hlast : (r.path.join ⟨name⟩).fileName = some name' := hname'
        rw [fileName_join htoward.absolute hnameable] at hlast
        cases hlast
        exact htoward.join heq hpiece

/-! ### What is found -/

theorem compare_below {r : Reached} {wantsDirectory : Bool}
    {deeper : Pending → List (Except (Path × FileError) Path)}
    (hdeeper : ∀ pending, pending.Leads base → ∀ p, .ok p ∈ deeper pending → base <+: p.components)
    (hahead : Ahead front rest)
    (hfits : ∀ name, r.path.fileName = some name → fits component name.toList = true →
      Toward base front r.path)
    (hp : .ok p ∈ compare fs wantsDirectory deeper r (component :: rest)) :
    base <+: p.components := by
  rw [compare] at hp
  cases hname : r.path.fileName with
  | none =>
    rw [hname] at hp
    cases hp
  | some name =>
    rw [hname] at hp
    obtain ⟨hfit, hmore⟩ := List.mem_ite_nil_left.mp hp
    have htoward := hfits name hname (by simpa using hfit)
    split at hmore
    · next hempty =>
      obtain rfl := List.isEmpty_iff.mp hempty
      obtain rfl := hahead.front_nil
      exact result_below htoward hmore
    · obtain ⟨pending, hpending, hfound⟩ := List.mem_flatMap.mp hmore
      exact hdeeper pending (expand_leads htidy hahead htoward pending hpending) p hfound

theorem compare_inside {r : Reached} {wantsDirectory : Bool}
    {deeper : Pending → List (Except (Path × FileError) Path)}
    (hdeeper : ∀ pending, pending.Leads base → ∀ p, .ok p ∈ deeper pending → base <+: p.components)
    (hwhole : ∀ component ∈ components, Whole component) (htoward : Toward base [] r.path)
    (hp : .ok p ∈ compare fs wantsDirectory deeper r components) : base <+: p.components := by
  cases components with
  | nil => cases hp
  | cons component rest =>
    exact compare_below htidy hdeeper
      (ahead_nil.mpr fun c hc => hwhole c (List.mem_cons_of_mem _ hc)) (fun _ _ _ => htoward) hp

/-- The induction is on how far down the search may still go. -/
theorem collect_below {wantsDirectory : Bool} (depth : Nat) {pending : Pending}
    (h : pending.Leads base) (hp : .ok p ∈ collect fs wantsDirectory depth pending) :
    base <+: p.components := by
  induction depth generalizing pending p with
  | zero => cases hp
  | succ depth ih =>
    have hdeeper : ∀ pending, pending.Leads base →
        ∀ p, .ok p ∈ collect fs wantsDirectory depth pending → base <+: p.components :=
      fun _ hpending _ hp => ih hpending hp
    unfold collect at hp
    cases h with
    | found htoward => exact result_below htoward hp
    | unreadable =>
      rw [List.mem_singleton] at hp
      cases hp
    | @inside r components htoward hahead =>
      have hwhole := ahead_nil.mp hahead
      dsimp only at hp
      split at hp
      · have hrest : ∀ component ∈ dropDirectories components, Whole component :=
          fun c hc => hwhole c ((List.dropWhile_suffix _).subset hc)
        rcases List.mem_append.mp hp with hitself | hcontents
        · split at hitself
          · obtain ⟨-, hitself⟩ := List.mem_ite_nil_right.mp hitself
            rw [List.mem_singleton] at hitself
            cases hitself
            simpa using htoward.steps
          · exact compare_inside htidy hdeeper hrest htoward hitself
        · obtain ⟨-, hcontents⟩ := List.mem_ite_nil_right.mp hcontents
          obtain ⟨pending, hpending, hp⟩ := List.mem_flatMap.mp hcontents
          have hmore : Ahead [] ([.directories] :: dropDirectories components) := by
            refine ahead_nil.mpr fun c hc => ?_
            rcases List.mem_cons.mp hc with rfl | hc
            · simp [Whole]
            · exact hrest c hc
          exact hdeeper pending (expand_leads htidy hmore htoward pending hpending) p hp
      · exact compare_inside htidy hdeeper hwhole htoward hp
    | @onTheWay r piece front rest hahead hname =>
      dsimp only at hp
      rw [List.head?_cons, Option.map_some, Option.getD_some, isDirectories_literally,
        if_neg Bool.false_ne_true] at hp
      exact compare_below htidy hdeeper hahead
        (fun name hlast hfits => hname name hlast (fits_literally.mp hfits)) hp

end

/-! ### Patterns below a directory -/

theorem whole_of_mapM {texts : List (List Char)} (htexts : ∀ text ∈ texts, '/' ∉ text)
    (h : texts.mapM compile = .ok components) : ∀ component ∈ components, Whole component := by
  intro component hcomponent hslash
  obtain ⟨text, htext, hcompile⟩ := exists_of_mapM_ok h hcomponent
  exact htexts text htext (mem_of_char_mem text 0 0 none hcompile hslash)

theorem components_piecesOf {directory : Path} (h : directory.isAbsolute = true) :
    directory.components = .root :: (piecesOf directory).filterMap Path.stepOf := by
  have hfirst : directory.text.toList.head? = some '/' := by simpa [Path.isAbsolute] using h
  obtain ⟨body, hbody⟩ := List.head?_eq_some_iff.mp hfirst
  rw [Path.components_of_absolute h, piecesOf, hbody, Path.stepsIn_slash]
  rfl

/-- The pieces of the directory come first, each of them literally. -/
theorem ofText_patternBelow {directory : Path} (hdirectory : directory.isAbsolute = true)
    {pattern : String} {q : Query}
    (h : Query.ofText (PackageLayout.patternBelow directory pattern) = .ok q) :
    q.scope = ⟨"/"⟩ ∧ ∃ front, Ahead front q.components ∧
      directory.components = .root :: front.filterMap Path.stepOf := by
  obtain ⟨-, rest, hrest, rfl⟩ := (ofText_patternBelow_iff hdirectory).mp h
  refine ⟨rfl, piecesOf directory, ⟨fun piece hpiece => (Text.of_mem_splitOn hpiece).1, rest, rfl,
    whole_of_mapM (fun _ => of_mem_componentTexts) hrest⟩, components_piecesOf hdirectory⟩

/-- **What is found below a directory is below it**: the components of the directory come first. -/
theorem found_below {fs : FileSystem} (htidy : fs.Tidy) {directory : Path}
    (hdirectory : directory.isAbsolute = true) {pattern : String} {q : Query}
    (h : Query.ofText (PackageLayout.patternBelow directory pattern) = .ok q)
    (hp : .ok p ∈ q.run fs) : directory.components <+: p.components := by
  obtain ⟨hscope, front, hahead, hcomponents⟩ := ofText_patternBelow hdirectory h
  obtain ⟨pending, hpending, hp⟩ := List.mem_flatMap.mp hp
  have hroot : (Path.mk "/").isAbsolute = true ∧ (Path.mk "/").components = [.root] := by decide
  have htoward : Toward directory.components front (reach fs q.scope).path := by
    rw [reach, hscope, hcomponents]
    refine ⟨hroot.1, ?_⟩
    rw [hroot.2]
    exact List.prefix_refl _
  exact collect_below htidy _ (expand_leads htidy hahead htoward pending hpending) hp

end StableWheel.Glob
