import StableWheel.Proofs.FileSystem.Below
import StableWheel.Proofs.FileSystem.Making

/-! The directories that a path goes through.

A path goes on from its parent (`Path.parent_continues`), so where a directory is found, every path
above it leads to a directory as well (`Above.directory`). When directories were created without a
failure, this tells each of them: all paths above lead to directories, and nothing else is new
(`createDirectories_exact`). -/
namespace StableWheel

/-! ### Parents -/

namespace Path

theorem skipIdleBack_suffix (cs : List Char) : skipIdleBack cs <:+ cs := by
  induction cs using skipIdleBack.induct with
  | case1 rest ih =>
    rw [skipIdleBack]
    exact ih.trans (List.suffix_cons ..)
  | case2 => exact List.nil_suffix
  | case3 rest ih =>
    rw [skipIdleBack]
    exact ih.trans (List.suffix_cons ..)
  | case4 cs hslash hdot hdots =>
    have hsame : skipIdleBack cs = cs := by
      rw [skipIdleBack]
      all_goals assumption
    exact ⟨[], by rw [hsame, List.nil_append]⟩

/-- What is left out at the end of a text starts at a separator, unless nothing is left. -/
theorem skipIdleBack_cases (cs : List Char) :
    skipIdleBack cs = cs ∨ skipIdleBack cs = [] ∨
      ∃ front, cs = front ++ '/' :: skipIdleBack cs := by
  induction cs using skipIdleBack.induct with
  | case1 rest ih =>
    rw [skipIdleBack]
    rcases ih with hsame | hnone | ⟨front, hfront⟩
    · exact .inr (.inr ⟨[], by rw [hsame]; rfl⟩)
    · exact .inr (.inl hnone)
    · exact .inr (.inr ⟨'/' :: front, by rw [List.cons_append, ← hfront]⟩)
  | case2 => exact .inr (.inl rfl)
  | case3 rest ih =>
    have hshorter : skipIdleBack ('/' :: rest) ≠ '/' :: rest := by
      intro hsame
      have hlength := (skipIdleBack_suffix rest).length_le
      rw [skipIdleBack] at hsame
      rw [hsame, List.length_cons] at hlength
      omega
    rw [skipIdleBack]
    rcases ih with hsame | hnone | ⟨front, hfront⟩
    · exact absurd hsame hshorter
    · exact .inr (.inl hnone)
    · exact .inr (.inr ⟨'.' :: front, by rw [List.cons_append, ← hfront]⟩)
  | case4 cs hslash hdot hdots =>
    refine .inl ?_
    rw [skipIdleBack]
    all_goals assumption

/-- The body of a parent ends at a separator of the path, unless it is empty. -/
theorem parent_body (p : Path) :
    skipIdleBack (p.bodyBack.dropWhile (· != '/')) = [] ∨
      ∃ front, (p.text.toList.drop (leading p.text.toList).toList.length).reverse =
        front ++ '/' :: skipIdleBack (p.bodyBack.dropWhile (· != '/')) := by
  obtain ⟨before, hbefore⟩ := (List.dropWhile_suffix (· != '/')).trans
    (skipIdleBack_suffix (p.text.toList.drop (leading p.text.toList).toList.length).reverse)
  change before ++ p.bodyBack.dropWhile (· != '/') = _ at hbefore
  rw [← hbefore]
  rcases hcut : p.bodyBack.dropWhile (· != '/') with _ | ⟨c, rest⟩
  · exact .inl rfl
  obtain rfl : c = '/' := by
    have hfirst := List.head?_dropWhile_not (· != '/') p.bodyBack
    rw [hcut] at hfirst
    simpa using hfirst
  rw [skipIdleBack]
  rcases skipIdleBack_cases rest with hsame | hnone | ⟨front, hfront⟩
  · exact .inr ⟨before, by rw [hsame]⟩
  · exact .inl hnone
  · exact .inr ⟨before ++ '/' :: front, by rw [List.append_assoc, List.cons_append, ← hfront]⟩

theorem leading_cases (cs : List Char) :
    (leading cs = some .root ∧ ∃ rest, cs = '/' :: rest) ∨
    (leading cs = some .here ∧ (cs = ['.'] ∨ ∃ rest, cs = '.' :: '/' :: rest)) ∨
    (leading cs = none ∧ cs.head? ≠ some '/') := by
  unfold leading
  split
  · exact .inl ⟨rfl, _, rfl⟩
  · exact .inr (.inl ⟨rfl, .inl rfl⟩)
  · exact .inr (.inl ⟨rfl, .inr ⟨_, rfl⟩⟩)
  · next hslash _ _ =>
    refine .inr (.inr ⟨rfl, fun hfirst => ?_⟩)
    obtain ⟨rest, rfl⟩ := List.head?_eq_some_iff.mp hfirst
    exact hslash rest rfl

/-- Only the start of a text is a dot that counts. -/
theorem leading_of_here {p : Path} (h : p.components.getLast? = some .here) :
    leading p.text.toList = some .here := by
  have hmem := List.mem_of_getLast? h
  rcases List.mem_append.mp hmem with hfirst | hstep
  · simpa using hfirst
  · obtain ⟨piece, -, hpiece⟩ := List.mem_filterMap.mp hstep
    unfold stepOf at hpiece
    split at hpiece
    · cases hpiece
    · split at hpiece <;> cases hpiece

end Path

namespace FileSystem

theorem continues_of_named {p q : Path} {rest : List Step}
    (h : Step.named p = Step.named q ++ rest) (ha : p.isAbsolute = q.isAbsolute) :
    Continues q rest p :=
  ⟨h, fun place => by rw [origin, origin, ha]⟩

/-- A path goes on at a separator. -/
theorem continues_of_cut {p q : Path} {after : List Char}
    (h : p.text.toList = q.text.toList ++ '/' :: after) (ha : p.isAbsolute = q.isAbsolute) :
    Continues q (Step.named ⟨String.ofList after⟩) p := by
  refine continues_of_named ?_ ha
  have hp : p = ⟨String.ofList (q.text.toList ++ '/' :: after)⟩ := by rw [← h, String.ofList_toList]
  rw [hp, Step.named_cut, String.ofList_toList]

theorem continues_of_body {p : Path} (head : List Char) {rest body : List Char}
    (hp : p.text.toList = head ++ rest)
    (hcut : body = [] ∨ ∃ front, rest.reverse = front ++ '/' :: body)
    (hhead : ∃ steps, Continues ⟨String.ofList head⟩ steps p)
    (ha : p.isAbsolute = (Path.mk (String.ofList (head ++ body.reverse))).isAbsolute) :
    ∃ steps, Continues ⟨String.ofList (head ++ body.reverse)⟩ steps p := by
  rcases hcut with rfl | ⟨front, hfront⟩
  · rwa [List.reverse_nil, List.append_nil]
  · have hrest : rest = body.reverse ++ '/' :: front.reverse := by
      rw [← List.reverse_reverse rest, hfront]
      simp
    have htext : p.text.toList =
        (Path.mk (String.ofList (head ++ body.reverse))).text.toList ++ '/' :: front.reverse := by
      simp [hp, hrest]
    exact ⟨_, continues_of_cut htext ha⟩

/-- A path goes on from its parent. -/
theorem parent_continues {p q : Path} (h : p.parent = some q) : ∃ rest, Continues q rest p := by
  have hstart := Path.leading_cases p.text.toList
  have hcut := p.parent_body
  unfold Path.parent at h
  split at h
  · cases h
  · cases h
  · next hlast =>
    -- nothing but a dot
    cases h
    rw [Path.leading_of_here hlast] at hstart
    refine ⟨Step.named p, continues_of_named (by rw [Step.named_empty, List.nil_append]) ?_⟩
    rcases hstart with ⟨hroot, -⟩ | ⟨-, hdot | ⟨rest, hdot⟩⟩ | ⟨hnone, -⟩
    · cases hroot
    · simp [Path.isAbsolute, hdot]
    · simp [Path.isAbsolute, hdot]
    · cases hnone
  · cases h
    unfold Path.withBodyBack
    generalize Path.skipIdleBack (p.bodyBack.dropWhile (· != '/')) = body at hcut ⊢
    rcases hstart with ⟨hstart, rest, htext⟩ | ⟨hstart, hdot⟩ | ⟨hstart, hfirst⟩
    · rw [hstart, htext] at hcut ⊢
      refine continues_of_body ['/'] htext hcut ⟨Step.named p, ?_⟩ ?_
      · exact continues_of_named rfl (by simp [Path.isAbsolute, htext])
      · simp [Path.isAbsolute, htext]
    · rcases hdot with htext | ⟨rest, htext⟩
      · rw [hstart, htext] at hcut ⊢
        refine continues_of_body ['.'] htext hcut ⟨[], ?_⟩ ?_
        · have hp : p = ⟨String.ofList ['.']⟩ := by rw [← htext, String.ofList_toList]
          rw [hp]
          exact .refl _
        · simp [Path.isAbsolute, htext]
      · rw [hstart, htext] at hcut ⊢
        refine continues_of_body ['.'] htext hcut ⟨_, continues_of_cut htext ?_⟩ ?_
        · simp [Path.isAbsolute, htext]
        · simp [Path.isAbsolute, htext]
    · rw [hstart] at hcut ⊢
      have hrelative : p.isAbsolute = false := by simpa [Path.isAbsolute] using hfirst
      refine continues_of_body [] rfl hcut ⟨Step.named p, ?_⟩ ?_
      · exact continues_of_named rfl hrelative
      · rw [hrelative]
        rcases hcut with rfl | ⟨front, hfront⟩
        · rfl
        · have htext : p.text.toList = body.reverse ++ '/' :: front.reverse := by
            simpa using congrArg List.reverse hfront
          rw [htext, List.head?_append] at hfirst
          refine (Bool.eq_false_iff.mpr fun habsolute => hfirst ?_).symm
          have hhead : body.reverse.head? = some '/' := by simpa [Path.isAbsolute] using habsolute
          rw [hhead, Option.some_or]

theorem Above.continues {above p : Path} (h : Above above p) : ∃ rest, Continues above rest p := by
  induction h with
  | self => exact ⟨[], .refl _⟩
  | parent hp _ ih =>
    obtain ⟨rest, hrest⟩ := ih
    obtain ⟨last, hlast⟩ := parent_continues hp
    exact ⟨rest ++ last, by rw [hlast.named, hrest.named, List.append_assoc],
      fun place => (hlast.origin place).trans (hrest.origin place)⟩

/-! ### What is on the way -/

variable {fs : FileSystem} {ending : Ending} {start found : Location} {first more : List Step}

/-- Steps go through directories only; at their end there may be something else. -/
theorem Walk.cut {links : Nat} (h : Walk fs ending links start (first ++ more) found)
    (ht : fs.IsTree) (hstart : fs.lookup start = some .directory)
    (hfound : more = [] → fs.lookup found = some .directory) :
    ∃ place links', Walk fs .followed links start first place ∧
      fs.lookup place = some .directory ∧ Walk fs ending links' place more found := by
  generalize hall : first ++ more = all at h
  -- where nothing comes first, the place is where the steps start
  induction h generalizing first with
  | here =>
    obtain ⟨rfl, rfl⟩ := List.append_eq_nil_iff.mp hall
    exact ⟨_, 0, .here, hstart, .here⟩
  | @stay links _ _ _ hrest ih =>
    rcases first with _ | ⟨step, first⟩
    · rw [List.nil_append] at hall
      exact ⟨_, links, .here, hstart, hall ▸ .stay hrest⟩
    · obtain ⟨rfl, hnext⟩ := List.cons.inj hall
      obtain ⟨place, links', hplace, hl, hmore⟩ := ih hstart hfound hnext
      exact ⟨place, links', .stay hplace, hl, hmore⟩
  | @inside links _ _ _ hrest ih =>
    rcases first with _ | ⟨step, first⟩
    · rw [List.nil_append] at hall
      exact ⟨_, links, .here, hstart, hall ▸ .inside hrest⟩
    · obtain ⟨rfl, hnext⟩ := List.cons.inj hall
      obtain ⟨place, links', hplace, hl, hmore⟩ := ih hstart hfound hnext
      exact ⟨place, links', .inside hplace, hl, hmore⟩
  | @up links _ _ _ hrest ih =>
    rcases first with _ | ⟨step, first⟩
    · rw [List.nil_append] at hall
      exact ⟨_, links, .here, hstart, hall ▸ .up hrest⟩
    · obtain ⟨rfl, hnext⟩ := List.cons.inj hall
      obtain ⟨place, links', hplace, hl, hmore⟩ := ih (ht.above hstart) hfound hnext
      exact ⟨place, links', .up hplace, hl, hmore⟩
  | @directory links _ _ _ _ hp hd hrest ih =>
    rcases first with _ | ⟨step, first⟩
    · rw [List.nil_append] at hall
      exact ⟨_, links, .here, hstart, hall ▸ .directory hp hd hrest⟩
    · obtain ⟨rfl, hnext⟩ := List.cons.inj hall
      obtain ⟨place, links', hplace, hl, hmore⟩ := ih hd hfound hnext
      exact ⟨place, links', .directory ⟨by simp, hp.2⟩ hd hplace, hl, hmore⟩
  | @nothing links _ _ hp hnone =>
    rcases first with _ | ⟨step, first⟩
    · rw [List.nil_append] at hall
      exact ⟨_, links, .here, hstart, hall ▸ .nothing hp hnone⟩
    · obtain ⟨-, hnext⟩ := List.cons.inj hall
      have hl := hfound (List.append_eq_nil_iff.mp hnext).2
      rw [hnone] at hl
      cases hl
  | @file links _ _ _ hp hf =>
    rcases first with _ | ⟨step, first⟩
    · rw [List.nil_append] at hall
      exact ⟨_, links, .here, hstart, hall ▸ .file hp hf⟩
    · obtain ⟨-, hnext⟩ := List.cons.inj hall
      have hl := hfound (List.append_eq_nil_iff.mp hnext).2
      rw [hf] at hl
      cases hl
  | @kept links _ _ _ hp hk hending =>
    rcases first with _ | ⟨step, first⟩
    · rw [List.nil_append] at hall
      exact ⟨_, links, .here, hstart, hall ▸ .kept hp hk hending⟩
    · obtain ⟨-, hnext⟩ := List.cons.inj hall
      have hl := hfound (List.append_eq_nil_iff.mp hnext).2
      rw [hk] at hl
      cases hl
  | @followed links _ _ _ _ _ hp hk hnot hrest ih =>
    rcases first with _ | ⟨step, first⟩
    · rw [List.nil_append] at hall
      exact ⟨_, links + 1, .here, hstart, hall ▸ .followed hp hk hnot hrest⟩
    · obtain ⟨rfl, rfl⟩ := List.cons.inj hall
      obtain ⟨place, links', hplace, hl, hmore⟩ :=
        ih (origin_directory hstart _) hfound (List.append_assoc ..)
      exact ⟨place, links', .followed ⟨by simp, hp.2⟩ hk (by simp) hplace, hl, hmore⟩

/-- Above a directory there are directories. -/
theorem Above.directory {above p : Path} (habove : Above above p) (ht : fs.IsTree)
    (hfound : fs.find p ending = .ok (found, .directory)) {place : Location}
    (hplace : fs.Heads .followed above place) : fs.lookup place = some .directory := by
  obtain ⟨rest, hrest⟩ := habove.continues
  obtain ⟨hr, hl⟩ := find_iff.mp hfound
  obtain ⟨last, -, hsteps⟩ := Step.ofPath_eq p
  have hwalk := (resolve_iff.mp hr).2
  rw [hsteps, hrest.named, hrest.origin, List.append_assoc] at hwalk
  obtain ⟨other, -, hother, hdirectory, -⟩ :=
    hwalk.cut ht (origin_directory ht.working above) fun _ => hl
  rwa [hplace.unique (heads_of_named hother.aims)]

/-! ### All directories that are made -/

theorem isDirectory_iff {p : Path} :
    fs.isDirectory p = true ↔ ∃ place, fs.find p .followed = .ok (place, .directory) := by
  unfold isDirectory status
  rcases fs.find p .followed with e | ⟨place, n⟩
  · simp [Except.map]
  · cases n <;> simp [Except.map]

theorem ensureDirectory_ok {p : Path} {after : FileSystem}
    (h : fs.ensureDirectory p = (.ok (), after)) :
    ∃ place, after.find p .followed = .ok (place, .directory) := by
  unfold ensureDirectory at h
  rcases createDirectory_found fs p with ⟨e, hsame⟩ | ⟨place, -, hput, hfound⟩
  · rw [hsame] at h
    dsimp only at h
    split at h
    · next hthere =>
      cases h
      exact isDirectory_iff.mp hthere
    · cases h
  · rw [hput] at h
    cases h
    exact ⟨place, hfound⟩

theorem createUpwards_ok {n : Nat} {p : Path} {after : FileSystem}
    (h : fs.createUpwards n p = (.ok (), after)) :
    ∃ place, after.find p .followed = .ok (place, .directory) := by
  -- however far up it goes, in the end the directory itself is made
  cases n with
  | zero => exact ensureDirectory_ok h
  | succ n =>
    unfold createUpwards at h
    split at h
    · split at h
      · cases h
      · split at h
        · exact ensureDirectory_ok h
        · split at h
          · cases h
          · exact ensureDirectory_ok h
    · exact ensureDirectory_ok h

/-- A path without components leads to where it starts. -/
theorem heads_of_no_components {p : Path} (h : p.components = []) {place : Location}
    (hplace : fs.Heads .followed p place) : place = origin fs.workingDirectory p := by
  have hnone : ∀ piece ∈ p.text.toList.splitOn '/', Path.stepOf piece = none :=
    List.filterMap_eq_nil_iff.mp (List.append_eq_nil_iff.mp h).2
  have hstays : ∀ step ∈ Step.named p, step = .stay := by
    intro step hstep
    obtain ⟨piece, hpiece, hof⟩ := List.mem_filterMap.mp hstep
    have hidle := hnone piece hpiece
    unfold Path.stepOf at hidle
    unfold Step.ofPiece at hof
    split at hof
    · cases hof
    split at hof
    · exact (Option.some.inj hof).symm
    · next hempty hdot =>
      rw [if_neg (by simp [hempty, hdot])] at hidle
      split at hidle <;> cases hidle
  have hstart : ∀ steps : List Step, (∀ step ∈ steps, step = .stay) → ∀ start,
      Aims fs .followed start steps start := by
    intro steps
    induction steps with
    | nil => exact fun _ _ => .here
    | cons step rest ih =>
      intro hall start
      obtain rfl := hall step (List.mem_cons_self ..)
      exact .stay (ih (fun step hstep => hall step (List.mem_cons_of_mem _ hstep)) start)
  exact hplace.unique (heads_of_named (hstart _ hstays _))

/-- When directories were created, all paths above lead to directories, and nothing else is new. -/
theorem createDirectories_exact {p : Path} {after : FileSystem} (ht : fs.IsTree)
    (h : fs.createDirectories p = (.ok (), after)) (place : Location) :
    (∃ above, Above above p ∧ fs.Heads .followed above place) ∧
        after.lookup place = some .directory ∨
      (¬ ∃ above, Above above p ∧ fs.Heads .followed above place) ∧
        after.lookup place = fs.lookup place := by
  have hmakes := createDirectories_makes fs p
  have htree := createDirectories_keepsTree fs p ht
  rw [h] at hmakes htree
  have hlinks := hmakes.grows.sameLinks
  by_cases hon : ∃ above, Above above p ∧ fs.Heads .followed above place
  · refine .inl ⟨hon, ?_⟩
    obtain ⟨above, habove, hplace⟩ := hon
    replace hplace := hlinks.heads hplace
    unfold createDirectories at h
    split at h
    · next hempty =>
      have hnone : p.components = [] := List.isEmpty_iff.mp hempty
      have hself : above = p := by
        cases habove with
        | self => rfl
        | parent hparent =>
          rw [Path.parent, hnone] at hparent
          cases hparent
      rw [hself] at hplace
      rw [heads_of_no_components hnone hplace]
      exact origin_directory htree.working p
    · obtain ⟨found, hfound⟩ := createUpwards_ok h
      exact habove.directory htree hfound hplace
  · refine .inr ⟨hon, ?_⟩
    rcases hb : fs.lookup place with _ | n
    · rcases ha : after.lookup place with _ | n
      · rfl
      · obtain ⟨-, above, habove, hfound⟩ := hmakes.made place n hb ha
        have hheads := hlinks.symm.heads (heads_of_resolve (find_iff.mp hfound).1)
        exact absurd ⟨above, habove, hheads⟩ hon
    · exact hmakes.kept.lookup place n hb

end FileSystem
end StableWheel
