import StableWheel.Proofs.FileSystem.Ancestors

/-! The components of paths.

A relative path that is joined to another one adds its own components (`components_join`), and what
is relative to a base adds those that the base does not have (`relativeTo_components`), so a path
can be taken apart and put together somewhere else. -/
namespace StableWheel.Path

/-! ### Texts -/

theorem stepsIn_nil : stepsIn [] = [] := by rfl

theorem stepsIn_cut (before after : List Char) :
    stepsIn (before ++ '/' :: after) = stepsIn before ++ stepsIn after := by
  simp [stepsIn, List.splitOn_append_cons_self]

theorem stepsIn_slash (cs : List Char) : stepsIn ('/' :: cs) = stepsIn cs :=
  stepsIn_cut [] cs

/-- A text without a separator is one step at most. -/
theorem stepsIn_piece {cs : List Char} (h : '/' ∉ cs) : stepsIn cs = (stepOf cs).toList := by
  rw [stepsIn, List.splitOn_eq_singleton h, List.filterMap_cons, List.filterMap_nil]
  cases stepOf cs <;> rfl

theorem stepsIn_name {name : String} (h : Nameable name) :
    stepsIn name.toList = [.name name] := by
  obtain ⟨hempty, hdot, hdots, hslash⟩ := h
  have hstep : stepOf name.toList = some (.name name) := by
    unfold stepOf
    rw [if_neg, if_neg, String.ofList_toList]
    · exact fun heq => hdots (by rw [← String.toList_inj, heq]; rfl)
    · simp only [Bool.or_eq_true, decide_eq_true_eq, not_or]
      exact ⟨fun heq => hempty (by rw [← String.toList_inj, heq]; rfl),
        fun heq => hdot (by rw [← String.toList_inj, heq]; rfl)⟩
  rw [stepsIn_piece hslash, hstep]
  rfl

theorem components_of_absolute {p : Path} (h : p.isAbsolute = true) :
    p.components = .root :: stepsIn p.text.toList := by
  have hfirst : p.text.toList.head? = some '/' := by simpa [isAbsolute] using h
  obtain ⟨rest, hrest⟩ := List.head?_eq_some_iff.mp hfirst
  simp [components, hrest, leading]

/-- No step stands for the start of a path. -/
theorem of_mem_stepsIn {cs : List Char} {c : Component} (h : c ∈ stepsIn cs) :
    c ≠ .root ∧ c ≠ .here := by
  obtain ⟨piece, -, hpiece⟩ := List.mem_filterMap.mp h
  unfold stepOf at hpiece
  split at hpiece
  · cases hpiece
  · split at hpiece <;> cases hpiece <;> simp

theorem mem_leading {cs : List Char} {c : Component} (h : c ∈ (leading cs).toList) :
    c = .root ∨ c = .here := by
  rcases leading_cases cs with ⟨hroot, -⟩ | ⟨hhere, -⟩ | ⟨hnone, -⟩
  · rw [hroot] at h
    exact .inl (List.mem_singleton.mp h)
  · rw [hhere] at h
    exact .inr (List.mem_singleton.mp h)
  · rw [hnone] at h
    cases h

/-- The steps are the components that are not the start. -/
theorem stepsIn_eq_filter (p : Path) :
    stepsIn p.text.toList = p.components.filter fun c => c != .root && c != .here := by
  have hstart : (leading p.text.toList).toList.filter (fun c => c != .root && c != .here) = [] :=
    List.filter_eq_nil_iff.mpr fun c hc => by rcases mem_leading hc with rfl | rfl <;> simp
  have hsteps : (stepsIn p.text.toList).filter (fun c => c != .root && c != .here) =
      stepsIn p.text.toList :=
    List.filter_eq_self.mpr fun c hc => by simpa using of_mem_stepsIn hc
  rw [components, List.filter_append, hstart, hsteps, List.nil_append]

theorem isAbsolute_iff {p : Path} : p.isAbsolute = true ↔ Component.root ∈ p.components := by
  constructor
  · intro h
    rw [components_of_absolute h]
    exact List.mem_cons_self ..
  · intro h
    rcases List.mem_append.mp h with hstart | hmem
    · rcases leading_cases p.text.toList with ⟨-, rest, hrest⟩ | ⟨hhere, -⟩ | ⟨hnone, -⟩
      · simp [isAbsolute, hrest]
      · rw [hhere] at hstart
        cases List.mem_singleton.mp hstart
      · rw [hnone] at hstart
        cases hstart
    · exact absurd rfl (of_mem_stepsIn hmem).1

/-! ### Joining -/

theorem isAbsolute_join_left {p q : Path} (h : p.isAbsolute = true) : (p.join q).isAbsolute = true := by
  have hfirst : p.text.toList.head? = some '/' := by simpa [isAbsolute] using h
  obtain ⟨rest, hrest⟩ := List.head?_eq_some_iff.mp hfirst
  have hfilled : p.isEmpty = false := by
    rw [isEmpty, String.isEmpty_eq_false_iff]
    rintro hempty
    rw [hempty] at hrest
    cases hrest
  unfold join
  rw [hfilled, Bool.or_false]
  split
  · assumption
  · split <;> simp [isAbsolute, hrest]

/-- How a text starts is settled by its first characters. -/
theorem leading_append {cs : List Char} (h : cs ≠ []) (more : List Char) :
    leading (cs ++ '/' :: more) = leading cs := by
  unfold leading
  rcases cs with _ | ⟨a, _ | ⟨b, rest⟩⟩
  · exact absurd rfl h
  · by_cases ha : a = '/'
    · subst ha
      rfl
    · by_cases hdot : a = '.'
      · subst hdot
        rfl
      · simp [ha, hdot]
  · by_cases ha : a = '/'
    · subst ha
      rfl
    · by_cases hdot : a = '.'
      · subst hdot
        by_cases hb : b = '/'
        · subst hb
          rfl
        · simp [hb]
      · simp [ha, hdot]

/-- What follows a separator does not count for how a text starts. -/
theorem leading_cut (before more more' : List Char) :
    leading (before ++ '/' :: more) = leading (before ++ '/' :: more') := by
  rcases before with _ | ⟨c, rest⟩
  · rfl
  · rw [leading_append (List.cons_ne_nil _ _), leading_append (List.cons_ne_nil _ _)]

theorem components_cut (before after : List Char) :
    (Path.mk (String.ofList (before ++ '/' :: after))).components =
      (Path.mk (String.ofList (before ++ ['/']))).components ++ stepsIn after := by
  simp only [components, String.toList_ofList, stepsIn_cut, stepsIn_nil, List.append_nil,
    List.append_assoc, leading_cut before after []]

theorem components_slash {cs : List Char} (h : cs ≠ []) :
    (Path.mk (String.ofList (cs ++ ['/']))).components = (Path.mk (String.ofList cs)).components := by
  simp only [components, String.toList_ofList, stepsIn_cut, stepsIn_nil, List.append_nil,
    leading_append h]

/-- A relative path adds its own steps. -/
theorem components_join {p q : Path} (hp : p.isEmpty = false) (hq : q.isAbsolute = false) :
    (p.join q).components = p.components ++ stepsIn q.text.toList := by
  have hfilled : p.text.toList ≠ [] := by simpa [isEmpty] using hp
  have hp' : p = ⟨String.ofList p.text.toList⟩ := by rw [String.ofList_toList]
  unfold join
  rw [hp, hq, Bool.or_false, if_neg Bool.false_ne_true]
  split
  · next hslash =>
    obtain ⟨front, hfront⟩ := List.getLast?_eq_some_iff.mp (by simpa using hslash)
    have hjoined : p.text ++ q.text = String.ofList (front ++ '/' :: q.text.toList) := by
      rw [← String.toList_inj, String.toList_append, hfront]
      simp
    rw [hjoined, components_cut, ← hfront, ← hp']
  · have hjoined : p.text ++ "/" ++ q.text =
        String.ofList (p.text.toList ++ '/' :: q.text.toList) := by
      rw [← String.toList_inj]
      simp
    rw [hjoined, components_cut, components_slash hfilled, ← hp']

theorem isAbsolute_of_leading {p : Path} (h : leading p.text.toList = none) :
    p.isAbsolute = false := by
  rcases leading_cases p.text.toList with ⟨hroot, -⟩ | ⟨hhere, -⟩ | ⟨-, hfirst⟩
  · rw [h] at hroot
    cases hroot
  · rw [h] at hhere
    cases hhere
  · simpa [isAbsolute] using hfirst

/-- A path that starts with a step adds its steps to any path. -/
theorem components_join_step (p : Path) {q : Path} (hq : leading q.text.toList = none) :
    (p.join q).components = p.components ++ stepsIn q.text.toList := by
  cases hp : p.isEmpty with
  | false => exact components_join hp (isAbsolute_of_leading hq)
  | true =>
    obtain rfl : p = ⟨""⟩ := congrArg Path.mk (by simpa [isEmpty] using hp)
    have hjoined : (Path.mk "").join q = q := by simp [join, isEmpty]
    rw [hjoined, components, hq]
    rfl

/-! ### Idle characters -/

theorem stepsIn_skipIdle (cs : List Char) : stepsIn (skipIdle cs) = stepsIn cs := by
  induction cs using skipIdle.induct with
  | case1 rest ih => rw [skipIdle, ih, stepsIn_slash]
  | case2 => rfl
  | case3 rest ih =>
    rw [skipIdle, ih]
    exact (stepsIn_cut ['.'] rest).symm
  | case4 cs hslash hdot hdots =>
    rw [skipIdle]
    all_goals assumption

theorem leading_skipIdle (cs : List Char) : leading (skipIdle cs) = none := by
  induction cs using skipIdle.induct with
  | case1 rest ih => rwa [skipIdle]
  | case2 => rfl
  | case3 rest ih => rwa [skipIdle]
  | case4 cs hslash hdot hdots =>
    have hsame : skipIdle cs = cs := by
      rw [skipIdle]
      all_goals assumption
    rw [hsame]
    unfold leading
    split
    · exact absurd rfl (hslash _)
    · exact absurd rfl hdot
    · exact absurd rfl (hdots _)
    · rfl

theorem stepsIn_skipIdleBack (cs : List Char) :
    stepsIn (skipIdleBack cs).reverse = stepsIn cs.reverse := by
  induction cs using skipIdleBack.induct with
  | case1 rest ih =>
    rw [skipIdleBack, ih, List.reverse_cons, stepsIn_cut, stepsIn_nil, List.append_nil]
  | case2 => rfl
  | case3 rest ih =>
    rw [skipIdleBack, ih, List.reverse_cons, List.reverse_cons, List.reverse_cons, List.append_assoc,
      List.singleton_append, stepsIn_cut, stepsIn_cut]
    rfl
  | case4 cs hslash hdot hdots =>
    rw [skipIdleBack]
    all_goals assumption

/-- What is cut off at the end leaves the start as it is. -/
theorem leading_skipIdleBack {cs : List Char} (h : leading cs = none) :
    leading (skipIdleBack cs.reverse).reverse = none := by
  rcases skipIdleBack_cases cs.reverse with hsame | hnone | ⟨front, hfront⟩
  · rw [hsame, List.reverse_reverse, h]
  · rw [hnone]
    rfl
  · have hcs : cs = (skipIdleBack cs.reverse).reverse ++ '/' :: front.reverse := by
      have hreversed := congrArg List.reverse hfront
      simpa using hreversed
    by_cases hempty : (skipIdleBack cs.reverse).reverse = []
    · rw [hempty]
      rfl
    · rw [← leading_append hempty front.reverse, ← hcs, h]

/-- After what is idle comes a step, up to the next separator. -/
theorem stepsIn_dropWhile {cs : List Char} (h : leading cs = none) :
    stepsIn (cs.dropWhile (· != '/')) = (stepsIn cs).drop 1 := by
  have hpiece : '/' ∉ cs.takeWhile (· != '/') := fun hmem => by
    simpa using List.mem_takeWhile_imp hmem
  have hcs := List.takeWhile_append_dropWhile (p := (· != '/')) (l := cs)
  rcases hrest : cs.dropWhile (· != '/') with _ | ⟨c, rest⟩
  · rw [hrest, List.append_nil] at hcs
    rw [← hcs, stepsIn_piece hpiece, stepsIn_nil]
    cases stepOf (cs.takeWhile (· != '/')) <;> rfl
  · obtain rfl : c = '/' := by
      have hfirst := List.head?_dropWhile_not (· != '/') cs
      rw [hrest] at hfirst
      simpa using hfirst
    rw [hrest] at hcs
    have hstep : ∃ step, stepOf (cs.takeWhile (· != '/')) = some step := by
      -- neither nothing nor a dot stands before the separator
      rw [← hcs] at h
      unfold stepOf
      generalize cs.takeWhile (· != '/') = piece at h
      rw [if_neg]
      · split <;> exact ⟨_, rfl⟩
      · simp only [Bool.or_eq_true, decide_eq_true_eq, not_or]
        constructor <;>
        · rintro rfl
          cases h
    obtain ⟨step, hstep⟩ := hstep
    rw [← hcs, stepsIn_cut, stepsIn_piece hpiece, hstep, stepsIn_slash]
    rfl

theorem stepsIn_dropSteps (n : Nat) (cs : List Char) :
    stepsIn (dropSteps n cs) = (stepsIn cs).drop n := by
  induction n generalizing cs with
  | zero => rw [dropSteps, stepsIn_skipIdle, List.drop_zero]
  | succ n ih =>
    rw [dropSteps, ih, stepsIn_dropWhile (leading_skipIdle cs), stepsIn_skipIdle, List.drop_drop,
      Nat.add_comm]

theorem leading_dropSteps (n : Nat) (cs : List Char) : leading (dropSteps n cs) = none := by
  induction n generalizing cs with
  | zero => exact leading_skipIdle cs
  | succ n ih => exact ih _

/-! ### What is relative to a path -/

theorem relativeTo_isSome {p base : Path} :
    (p.relativeTo base).isSome ↔ base.components <+: p.components := by
  unfold relativeTo
  dsimp only
  rw [← List.isPrefixOf_iff_prefix]
  by_cases h : base.components.isPrefixOf p.components = true
  · rw [if_pos h, iff_true_right h]
    cases base.components <;> rfl
  · rw [if_neg h]
    exact iff_of_false (by simp) h

/-- What is relative to an absolute path adds what comes after the components of the path. -/
theorem relativeTo_components {p base rel : Path} (hbase : base.isAbsolute = true)
    (h : p.relativeTo base = some rel) :
    leading rel.text.toList = none ∧ p.components = base.components ++ stepsIn rel.text.toList := by
  obtain ⟨tail, htail⟩ := relativeTo_isSome.mp (by rw [h]; rfl)
  have hsteps := components_of_absolute hbase
  -- the path starts at the root as well
  obtain ⟨cs, hcs⟩ : ∃ cs, p.text.toList = '/' :: cs := by
    rcases leading_cases p.text.toList with ⟨-, hroot⟩ | ⟨hhere, -⟩ | ⟨hnone, -⟩
    · exact hroot
    · rw [hsteps, List.cons_append, components, hhere] at htail
      cases (List.cons.inj htail).1
    · have hmem : Component.root ∈ p.components := by
        rw [← htail, hsteps]
        simp
      rw [components, hnone] at hmem
      exact absurd rfl (of_mem_stepsIn hmem).1
  have hp : p.components = .root :: stepsIn cs := by
    rw [components, hcs, stepsIn_slash]
    rfl
  unfold relativeTo at h
  dsimp only at h
  rw [if_pos (List.isPrefixOf_iff_prefix.mpr ⟨tail, htail⟩), hsteps, hcs] at h
  cases h
  rw [String.toList_ofList]
  refine ⟨leading_skipIdleBack (leading_dropSteps _ _), ?_⟩
  rw [stepsIn_skipIdleBack, List.reverse_reverse, stepsIn_dropSteps, hp, hsteps]
  rw [hp, hsteps] at htail
  have hmore : stepsIn cs = stepsIn base.text.toList ++ tail := (List.cons.inj htail).2.symm
  simp [leading, hmore]

end StableWheel.Path
