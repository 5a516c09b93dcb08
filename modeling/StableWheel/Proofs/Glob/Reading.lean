import StableWheel.Package.Staging
import StableWheel.Proofs.Glob.Literal
import StableWheel.Proofs.Session.Effects

/-! What the pattern for files below a directory is read as.

Nothing in the escaped path of the directory changes how what follows is read: its characters are
read one by one, and the separator behind it counts as a start (`compileFrom_escape_cut`). So the
pattern is refused for its own sake only, and its components come after the pieces of the directory,
each of which stands for itself (`ofText_patternBelow_iff`). -/
namespace StableWheel.Glob

variable {before before' : Option Char} {cs after : List Char} {tokens : List Token}

/-! ### Where a pattern starts -/

/-- Two characters that may stand in front of an element are as good as each other if both or none of
them is a separator. -/
theorem element_ok_iff (h : before.all (· == '/') = before'.all (· == '/'))
    (position position' : Nat) {c : Char} {found : Token × Nat} :
    element position before c cs = .ok found ↔ element position' before' c cs = .ok found := by
  unfold element
  rw [h]
  split
  · rfl
  split
  · cases readClass cs <;> simp
  split
  · split
    · rfl
    · split
      · split
        · rfl
        · split <;> simp
      · simp
    · simp
  · rfl

/-- What is read depends neither on the position nor on what separator stands in front. -/
theorem compileFrom_ok_iff (h : before.all (· == '/') = before'.all (· == '/'))
    (skip position position' : Nat) :
    compileFrom skip position before cs = .ok tokens ↔
      compileFrom skip position' before' cs = .ok tokens := by
  induction cs generalizing skip position position' before before' tokens with
  | nil => rw [compileFrom, compileFrom]
  | cons c rest ih =>
    cases skip with
    | succ skip =>
      rw [compileFrom, compileFrom]
      exact ih rfl skip _ _
    | zero =>
      rw [compileFrom, compileFrom]
      simp only [bind_ok_iff, element_ok_iff h position position', Prod.exists]
      refine exists_congr fun t => exists_congr fun skip => and_congr_right fun _ => ?_
      refine exists_congr fun more => and_congr_left fun _ => ?_
      exact ih rfl skip _ _

theorem compile_ok_iff (position : Nat) :
    compileFrom 0 position (some '/') cs = .ok tokens ↔ compile cs = .ok tokens :=
  compileFrom_ok_iff (by rfl) 0 position 0

/-! ### Behind an escaped text -/

/-- An escaped text and a separator are read character by character, whatever follows. -/
theorem compileFrom_escape_cut (position : Nat) :
    compileFrom 0 position before (escape cs ++ '/' :: after) = .ok tokens ↔
      ∃ more, compile after = .ok more ∧ tokens = literally cs ++ .char '/' :: more := by
  induction cs generalizing position before tokens with
  | nil =>
    have hslash : element position before '/' after = .ok (.char '/', 0) :=
      element_plain (by decide) position before after
    rw [escape, List.flatMap_nil, List.nil_append, compileFrom, hslash]
    simp only [bind_ok_iff]
    constructor
    · rintro ⟨_, heq, more, hmore, htokens⟩
      cases heq
      cases htokens
      exact ⟨more, (compile_ok_iff _).mp hmore, rfl⟩
    · rintro ⟨more, hmore, rfl⟩
      exact ⟨_, rfl, more, (compile_ok_iff _).mpr hmore, rfl⟩
  | cons c rest ih =>
    rw [escape, List.flatMap_cons, ← escape, List.append_assoc]
    obtain ⟨position', last, hread⟩ :=
      compileFrom_escaped c position before (escape rest ++ '/' :: after)
    rw [hread]
    constructor
    · intro h
      obtain ⟨others, hothers, rfl⟩ := map_ok_iff.mp h
      obtain ⟨more, hmore, rfl⟩ := (ih position').mp hothers
      exact ⟨more, hmore, rfl⟩
    · rintro ⟨more, hmore, rfl⟩
      exact map_ok_iff.mpr ⟨_, (ih position').mpr ⟨more, hmore, rfl⟩, rfl⟩

/-! ### Components -/

theorem of_mem_componentTexts {text : List Char} (h : text ∈ componentTexts cs) : '/' ∉ text := by
  unfold componentTexts at h
  dsimp only at h
  split at h
  · exact (Text.of_mem_splitOn (List.dropLast_subset _ h)).1
  · exact (Text.of_mem_splitOn h).1

theorem componentTexts_cut (before after : List Char) :
    componentTexts (before ++ '/' :: after) = before.splitOn '/' ++ componentTexts after := by
  have hne := List.splitOn_ne_nil '/' after
  unfold componentTexts
  dsimp only
  rw [List.splitOn_append_cons_self, List.getLast?_append_of_ne_nil _ hne]
  split
  · exact List.dropLast_append_of_ne_nil hne
  · rfl

/-- Escaped texts come first among the components, each of them literally. -/
theorem mapM_compile_escape {front more : List (List Char)} {components : List (List Token)} :
    (front.map escape ++ more).mapM compile = .ok components ↔
      ∃ rest, more.mapM compile = .ok rest ∧ components = front.map literally ++ rest := by
  induction front generalizing components with
  | nil => simp
  | cons piece front ih =>
    rw [List.map_cons, List.cons_append, List.mapM_cons, compile_escape]
    simp only [bind_ok_iff, ih]
    constructor
    · rintro ⟨_, hpiece, _, ⟨rest, hrest, rfl⟩, h⟩
      cases hpiece
      cases h
      exact ⟨rest, hrest, rfl⟩
    · rintro ⟨rest, hrest, rfl⟩
      exact ⟨_, rfl, _, ⟨rest, hrest, rfl⟩, rfl⟩

/-- The pieces of a path from the root. -/
def piecesOf (directory : Path) : List (List Char) := (directory.text.toList.drop 1).splitOn '/'

/-- The pieces of the directory come first, each of them literally, and what follows is read as if
nothing came first. -/
theorem ofText_patternBelow_iff {directory : Path} (hdirectory : directory.isAbsolute = true)
    {pattern : String} {q : Query} :
    Query.ofText (PackageLayout.patternBelow directory pattern) = .ok q ↔
      (∃ tokens, compile pattern.toList = .ok tokens) ∧
      ∃ rest, (componentTexts pattern.toList).mapM compile = .ok rest ∧
        q = ⟨⟨"/"⟩, (piecesOf directory).map literally ++ rest,
          ('/' :: pattern.toList).getLast? == some '/'⟩ := by
  have hfirst : directory.text.toList.head? = some '/' := by
    simpa [Path.isAbsolute] using hdirectory
  obtain ⟨body, hbody⟩ := List.head?_eq_some_iff.mp hfirst
  have htext : PackageLayout.patternBelow directory pattern =
      '/' :: (escape body ++ '/' :: pattern.toList) := by
    rw [PackageLayout.patternBelow, hbody]
    rfl
  have hmany : '/' :: (escape body ++ '/' :: pattern.toList) ≠ ['/'] := by simp
  have hend : ('/' :: (escape body ++ '/' :: pattern.toList)).getLast? =
      ('/' :: pattern.toList).getLast? := by
    rw [← List.cons_append, List.getLast?_append_of_ne_nil _ (List.cons_ne_nil _ _)]
  have hwhole (tokens : List Token) :
      compile ('/' :: (escape body ++ '/' :: pattern.toList)) = .ok tokens ↔
        ∃ more, compile pattern.toList = .ok more ∧
          tokens = literally directory.text.toList ++ .char '/' :: more := by
    rw [← htext]
    exact compileFrom_escape_cut 0
  have hpieces : piecesOf directory = body.splitOn '/' := by rw [piecesOf, hbody]; rfl
  rw [htext, Query.ofText]
  simp only [bind_ok_iff, hwhole, List.head?_cons, beq_self_eq_true, if_true, List.drop_succ_cons,
    List.drop_zero, componentTexts_cut, splitOn_escape, mapM_compile_escape, if_neg hmany, hend,
    hpieces]
  constructor
  · rintro ⟨_, ⟨tokens, htokens, -⟩, _, ⟨rest, hrest, rfl⟩, h⟩
    cases h
    exact ⟨⟨tokens, htokens⟩, rest, hrest, rfl⟩
  · rintro ⟨⟨tokens, htokens⟩, rest, hrest, rfl⟩
    exact ⟨_, ⟨tokens, htokens, rfl⟩, _, ⟨rest, hrest, rfl⟩, rfl⟩

end StableWheel.Glob
