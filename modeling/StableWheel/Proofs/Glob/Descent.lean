import StableWheel.Proofs.FileSystem.Sight
import StableWheel.Proofs.Glob.Reached

/-! How a search comes to the directory it starts from.

The pieces of the directory's path come first among the components. Each of them stands for one name
only, and there is a directory of this name, so the search goes down one way: what comes of all
components is what comes of those behind the pieces, from a path that is put together from the pieces
(`collect_front`). The path is not longer than the directory's own (`shorter_start`). -/
namespace StableWheel.Glob
open FileSystem
open StableWheel.Path (Shorter)

variable {fs : FileSystem} {p directory : Path} {front : List (List Char)} {piece : List Char}
  {rest : List (List Token)} {name : String}

/-! ### The directories on the way -/

/-- The path that is put together from some pieces. -/
def pathAlong (p : Path) (pieces : List (List Char)) : Path := p.extend (pieces.map String.ofList)

/-- Where the search starts for a directory. -/
def startOf (directory : Path) : Path := pathAlong ⟨"/"⟩ (piecesOf directory)

theorem mem_piecesOf (h : piece ∈ piecesOf directory) : '/' ∉ piece := (Text.of_mem_splitOn h).1

theorem text_piecesOf (h : directory.isAbsolute = true) :
    directory.text.toList = Path.written (piecesOf directory) := by
  have hfirst : directory.text.toList.head? = some '/' := by simpa [Path.isAbsolute] using h
  obtain ⟨body, hbody⟩ := List.head?_eq_some_iff.mp hfirst
  rw [piecesOf, Path.written_splitOn, hbody]
  rfl

theorem written_append {before more : List (List Char)} (h : before ++ more = piecesOf directory)
    (habsolute : directory.isAbsolute = true) :
    directory.text.toList = Path.written before ++ Path.written more := by
  rw [text_piecesOf habsolute, ← h]
  simp [Path.written]

theorem shorter_start (h : directory.isAbsolute = true) : Shorter (startOf directory) directory := by
  have hne : piecesOf directory ≠ [] := List.splitOn_ne_nil _ _
  have hshorter := Path.shorter_pieces hne fun _ => mem_piecesOf
  rwa [← text_piecesOf h, String.ofList_toList] at hshorter

theorem isDirectory_root (fs : FileSystem) : fs.isDirectory ⟨"/"⟩ = true :=
  isDirectory_iff.mpr ⟨[], find_directory (by decide) (by decide) .here (lookup_root fs)⟩

/-- The steps of a path start with the steps of its first pieces. -/
theorem ofPath_along {before more : List (List Char)} (hmore : before ++ more = piecesOf directory)
    (hne : before ≠ []) (habsolute : directory.isAbsolute = true) :
    ∃ last, Step.ofPath directory = Step.named (pathAlong ⟨"/"⟩ before) ++ last := by
  have hpieces : ∀ piece ∈ before, '/' ∉ piece := fun piece hpiece =>
    mem_piecesOf (hmore ▸ List.mem_append_left more hpiece : piece ∈ piecesOf directory)
  obtain ⟨inside, -, hend⟩ := Step.ofPath_eq directory
  have hwhole : directory = ⟨String.ofList (Path.written before ++ Path.written more)⟩ := by
    rw [← written_append hmore habsolute, String.ofList_toList]
  rw [hend, pathAlong, (Path.shorter_pieces hne hpieces).steps, hwhole]
  rcases more with _ | ⟨piece, more⟩
  · exact ⟨inside, by simp [Path.written]⟩
  · have hcut : Path.written before ++ Path.written (piece :: more) =
        Path.written before ++ '/' :: (piece ++ Path.written more) := by simp [Path.written]
    rw [hcut, Step.named_cut, List.append_assoc]
    exact ⟨_, rfl⟩

/-- Every part of the path of a directory leads to a directory. -/
theorem isDirectory_along (ht : fs.IsTree) (hd : fs.isDirectory directory = true)
    (habsolute : directory.isAbsolute = true) {before : List (List Char)}
    (hbefore : before <+: piecesOf directory) : fs.isDirectory (pathAlong ⟨"/"⟩ before) = true := by
  obtain ⟨more, hmore⟩ := hbefore
  by_cases hne : before = []
  · subst hne
    exact isDirectory_root fs
  have hpieces : ∀ piece ∈ before, '/' ∉ piece := fun piece hpiece =>
    mem_piecesOf (hmore ▸ List.mem_append_left more hpiece : piece ∈ piecesOf directory)
  have hshorter := Path.shorter_pieces hne hpieces
  have htext := written_append hmore habsolute
  have hsize : (Path.mk (String.ofList (Path.written before))).text.utf8ByteSize ≤
      directory.text.utf8ByteSize := by
    have hparts : directory.text = String.ofList (Path.written before) ++
        String.ofList (Path.written more) := String.toList_inj.mp (by simp [htext])
    rw [hparts, String.utf8ByteSize_append]
    exact Nat.le_add_right _ _
  have hchars : (String.ofList (Path.written before)).toList ⊆ directory.text.toList := by
    rw [htext, String.toList_ofList]
    exact List.subset_append_left _ _
  obtain ⟨last, hsteps⟩ := ofPath_along hmore hne habsolute
  obtain ⟨place, hfound⟩ := isDirectory_iff.mp hd
  obtain ⟨room, -, hroom, -⟩ := find_front ht hshorter.absolute.1 habsolute
    (hshorter.size.trans hsize) (List.Subset.trans hshorter.chars hchars) hsteps
    (fun _ => rfl) hfound
  exact isDirectory_iff.mpr ⟨room, hroom⟩

/-! ### One component -/

/-- A component that no dots come of: it stands for no separator, and not for dots, if it starts with
one. -/
structure Searched (component : List Token) : Prop where
  whole : Whole component
  dotless : component.head? = some (.char '.') →
    fits component ['.'] = false ∧ fits component ['.', '.'] = false

theorem literal?_fits {component : List Token} {cs : List Char} (h : literal? component = some cs) :
    component = cs.map .char ∧ fits component cs = true := by
  induction component generalizing cs with
  | nil =>
    cases h
    exact ⟨rfl, rfl⟩
  | cons t rest ih =>
    cases t with
    | char c =>
      rw [literal?, Option.map_eq_some_iff] at h
      obtain ⟨more, hmore, rfl⟩ := h
      obtain ⟨hrest, hfits⟩ := ih hmore
      exact ⟨by rw [hrest, List.map_cons], by rw [fits, hfits, beq_self_eq_true, Bool.true_and]⟩
    | _ => cases h

/-- What stands for itself is a name, or empty. -/
theorem Searched.part {component : List Token} (h : Searched component) {cs : List Char}
    (hliteral : literal? component = some cs) : PathPart (String.ofList cs) := by
  obtain ⟨hchars, hfits⟩ := literal?_fits hliteral
  refine or_iff_not_imp_left.mpr fun hempty => ⟨hempty, ?_, ?_, ?_⟩
  · intro heq
    obtain rfl : cs = ['.'] := by simpa using congrArg String.toList heq
    rw [(h.dotless (by rw [hchars]; rfl)).1] at hfits
    cases hfits
  · intro heq
    obtain rfl : cs = ['.', '.'] := by simpa using congrArg String.toList heq
    rw [(h.dotless (by rw [hchars]; rfl)).2] at hfits
    cases hfits
  · rw [String.toList_ofList]
    exact fun hmem => h.whole (literal?_char_mem hliteral _ hmem)

theorem isDots_of_part (h : PathPart name) : isDots name = false := by
  rcases h with rfl | h
  · rfl
  · simp [isDots, h.2.1, h.2.2.1]

/-- What is looked up by its name is there or not. -/
theorem expand_literal {component : List Token} (hp : p.isAbsolute = true)
    (h : Searched component) {cs : List Char} (hliteral : literal? component = some cs) :
    expand fs (component :: rest) (reach fs p) =
      if (fs.status (p.join ⟨String.ofList cs⟩)).isOk || fs.exists? (p.join ⟨String.ofList cs⟩) then
        following fs rest (p.join ⟨String.ofList cs⟩)
      else [] := by
  have hbelow : below (reach fs p).path (String.ofList cs) = p.join ⟨String.ofList cs⟩ :=
    below_of_absolute hp
  rw [expand, hliteral]
  dsimp only
  rw [hbelow, isDots_of_part (h.part hliteral), if_neg Bool.false_ne_true]
  rfl

/-- What is compared with names is compared with those in the directory. -/
theorem expand_names {component : List Token} (hp : p.isAbsolute = true)
    (hd : fs.isDirectory p = true) (h : Searched component) (hspecial : literal? component = none)
    {names : List String} (hread : fs.readDirectory p = .ok names) :
    expand fs (component :: rest) (reach fs p) =
      names.map fun name => .entry (reach fs (p.join ⟨name⟩)) (component :: rest) := by
  have hdots : (if component.head? == some (.char '.') then
      ["..", "."].filter (fun name => fits component name.toList) else []) = [] := by
    split
    · next hhead =>
      obtain ⟨hone, htwo⟩ := h.dotless (by simpa using hhead)
      simp [hone, htwo]
    · rfl
  rw [expand, hspecial, reach, hd]
  dsimp only
  rw [hread]
  simp only [hdots, List.flatMap_nil, List.nil_append, below_of_absolute hp]
  rfl

theorem expand_nowhere {component : List Token} (hd : fs.isDirectory p = false)
    (hspecial : literal? component = none) :
    expand fs (component :: rest) (reach fs p) = [] := by
  rw [expand, hspecial, reach, hd]
  rfl

/-- An entry goes on with the other components if it fits the first one. -/
theorem compare_entry (hp : p.isAbsolute = true) (hname : Nameable name) (wantsDirectory : Bool)
    {depth : Nat} (hdepth : 0 < depth) (component : List Token) :
    compare fs wantsDirectory (collect fs wantsDirectory depth) (reach fs (p.join ⟨name⟩))
        (component :: rest) =
      if fits component name.toList then
        (following fs rest (p.join ⟨name⟩)).flatMap (collect fs wantsDirectory depth)
      else [] := by
  obtain ⟨depth, rfl⟩ := Nat.exists_eq_succ_of_ne_zero (Nat.ne_of_gt hdepth)
  have hfile : (reach fs (p.join ⟨name⟩)).path.fileName = some name := fileName_join hp hname
  rw [compare, hfile]
  dsimp only
  rw [following]
  cases fits component name.toList with
  | false => rfl
  | true =>
    rw [if_neg (by simp), if_pos rfl]
    split
    · simp [collect]
    · rfl

/-! ### One piece -/

theorem expand_plain (hp : p.isAbsolute = true) (hd : fs.isDirectory p = true)
    (hnext : fs.isDirectory (p.join ⟨String.ofList piece⟩) = true)
    (hplain : literal? (literally piece) = some piece) :
    expand fs (literally piece :: rest) (reach fs p) =
      following fs rest (p.join ⟨String.ofList piece⟩) := by
  have hpresent : (fs.status (p.join ⟨String.ofList piece⟩)).isOk = true := by
    obtain ⟨place, hfound⟩ := isDirectory_iff.mp hnext
    rw [status, hfound]
    rfl
  have hbelow : below (reach fs p).path (String.ofList piece) = p.join ⟨String.ofList piece⟩ :=
    below_of_absolute hp
  rw [expand, hplain]
  dsimp only
  rw [hbelow, hpresent, Bool.true_or, reach, hd, ite_self, if_pos rfl]
  rfl

/-- What holds a special character is a name. -/
theorem nameable_special (hpiece : '/' ∉ piece) (hspecial : literal? (literally piece) = none) :
    Nameable (String.ofList piece) := by
  have hne {other : List Char} (h : literal? (literally other) ≠ none) : piece ≠ other :=
    fun heq => h (heq ▸ hspecial)
  have hofList {other : String} (h : piece ≠ other.toList) : String.ofList piece ≠ other :=
    fun heq => h (by rw [← heq, String.toList_ofList])
  exact ⟨hofList (hne (by decide)), hofList (hne (by decide)), hofList (hne (by decide)),
    by rwa [String.toList_ofList]⟩

theorem searched_special (hpiece : '/' ∉ piece) (hspecial : literal? (literally piece) = none) :
    Searched (literally piece) where
  whole hmem := by
    obtain ⟨c, hc, htoken⟩ := List.mem_map.mp hmem
    rw [tokenOf] at htoken
    split at htoken <;> cases htoken
    exact hpiece hc
  dotless _ := by
    -- dots are not special, so they would have been looked up
    constructor <;> refine Bool.eq_false_iff.mpr fun hfits => ?_
    all_goals
      rw [← fits_literally.mp hfits] at hspecial
      cases hspecial

/-- Among different names one is the right one. -/
theorem flatMap_single {α β : Type} [DecidableEq α] {xs : List α} {x : α} (hnodup : xs.Nodup)
    (hmem : x ∈ xs) (f : α → List β) : (xs.flatMap fun y => if y = x then f y else []) = f x := by
  obtain ⟨before, after, rfl⟩ := List.append_of_mem hmem
  have hother := (List.nodup_cons.mp (List.nodup_middle.mp hnodup)).1
  have hnothing {ys : List α} (hys : x ∉ ys) :
      (ys.flatMap fun y => if y = x then f y else []) = [] :=
    List.flatMap_eq_nil_iff.mpr fun y hy => if_neg fun heq : y = x => hys (heq ▸ hy)
  rw [List.flatMap_append, List.flatMap_cons, if_pos rfl,
    hnothing fun hmem => hother (List.mem_append_left _ hmem),
    hnothing fun hmem => hother (List.mem_append_right _ hmem), List.nil_append, List.append_nil]

/-! ### The way down -/

theorem collect_piece (ht : fs.IsTree) (htidy : fs.Tidy) (hp : p.isAbsolute = true)
    (hpiece : '/' ∉ piece) (hd : fs.isDirectory p = true)
    (hnext : fs.isDirectory (p.join ⟨String.ofList piece⟩) = true) (wantsDirectory : Bool)
    {depth : Nat} (hdepth : 1 < depth) (rest : List (List Token)) :
    ∃ depth', depth ≤ depth' + 1 ∧
      (following fs (literally piece :: rest) p).flatMap (collect fs wantsDirectory depth) =
        (following fs rest (p.join ⟨String.ofList piece⟩)).flatMap
          (collect fs wantsDirectory depth') := by
  have hfollowing : following fs (literally piece :: rest) p =
      expand fs (literally piece :: rest) (reach fs p) := rfl
  rw [hfollowing]
  cases hliteral : literal? (literally piece) with
  | some cs =>
    obtain rfl := literal?_literally hliteral
    exact ⟨depth, Nat.le_succ _, by rw [expand_plain hp hd hnext hliteral]⟩
  | none =>
    have hname := nameable_special hpiece hliteral
    obtain ⟨place, hfound⟩ := isDirectory_iff.mp hnext
    obtain ⟨names, hlisting, hmem⟩ := find_above_name ht hp hname hfound
    have hread := readDirectory_of_listing hlisting
    have hnodup : names.Nodup := by
      obtain ⟨room, -, rfl⟩ := listing_eq_some_iff.mp hlisting
      exact htidy.nodup_names room
    obtain ⟨depth, rfl⟩ := Nat.exists_eq_succ_of_ne_zero (Nat.ne_of_gt (Nat.zero_lt_of_lt hdepth))
    refine ⟨depth, le_refl _, ?_⟩
    -- of all the names in the directory only the piece itself goes on
    have hentry : ∀ name ∈ names, collect fs wantsDirectory (depth + 1)
        (.entry (reach fs (p.join ⟨name⟩)) (literally piece :: rest)) =
        if name = String.ofList piece then
          (following fs rest (p.join ⟨name⟩)).flatMap (collect fs wantsDirectory depth)
        else [] := by
      intro name hname
      rw [collect]
      dsimp only
      rw [List.head?_cons, Option.map_some, Option.getD_some, isDirectories_literally,
        if_neg Bool.false_ne_true, compare_entry hp (htidy.readDirectory hread name hname) _
          (Nat.lt_of_succ_lt_succ hdepth)]
      simp only [fits_literally, ← String.toList_inj, String.toList_ofList]
    rw [expand_names hp hd (searched_special hpiece hliteral) hliteral hread, List.flatMap_map,
      List.flatMap_congr hentry]
    exact flatMap_single hnodup hmem _

/-- What comes of all components is what comes of those behind the pieces. -/
theorem collect_front (ht : fs.IsTree) (htidy : fs.Tidy) (hp : p.isAbsolute = true)
    (hpieces : ∀ piece ∈ front, '/' ∉ piece)
    (hdirectories : ∀ before, before <+: front → fs.isDirectory (pathAlong p before) = true)
    (wantsDirectory : Bool) {depth : Nat} (hdepth : front.length < depth)
    (rest : List (List Token)) :
    ∃ depth', depth ≤ depth' + front.length ∧
      (following fs (front.map literally ++ rest) p).flatMap (collect fs wantsDirectory depth) =
        (following fs rest (pathAlong p front)).flatMap (collect fs wantsDirectory depth') := by
  induction front generalizing p depth with
  | nil => exact ⟨depth, Nat.le_refl _, rfl⟩
  | cons piece front ih =>
    rw [List.length_cons] at hdepth
    have hnext (before : List (List Char)) (hbefore : before <+: front) :
        fs.isDirectory (pathAlong (p.join ⟨String.ofList piece⟩) before) = true :=
      hdirectories (piece :: before) (List.prefix_cons_inj piece |>.mpr hbefore)
    have hdown : 1 < depth := by omega
    obtain ⟨middle, hmiddle, heq⟩ := collect_piece ht htidy hp
      (hpieces piece (List.mem_cons_self ..)) (hdirectories [] List.nil_prefix)
      (hnext [] List.nil_prefix) wantsDirectory hdown (front.map literally ++ rest)
    have hmore : front.length < middle := by omega
    obtain ⟨depth', hdepth', hrest⟩ := ih (Path.isAbsolute_join_left hp)
      (fun other hother => hpieces other (List.mem_cons_of_mem _ hother)) hnext hmore
    refine ⟨depth', by rw [List.length_cons]; omega, ?_⟩
    rw [List.map_cons, List.cons_append, heq, hrest]
    rfl

/-- A search below a directory is one from the path that its pieces make. -/
theorem run_from_start (ht : fs.IsTree) (htidy : fs.Tidy) (hd : fs.isDirectory directory = true)
    (habsolute : directory.isAbsolute = true) (rest : List (List Token)) (wantsDirectory : Bool) :
    ∃ depth, pathLimit + rest.length ≤ depth ∧
      Query.run ⟨⟨"/"⟩, (piecesOf directory).map literally ++ rest, wantsDirectory⟩ fs =
        (following fs rest (startOf directory)).flatMap (collect fs wantsDirectory depth) := by
  have hdeep : (piecesOf directory).length <
      pathLimit + ((piecesOf directory).map literally ++ rest).length := by
    rw [List.length_append, List.length_map, pathLimit]
    omega
  obtain ⟨depth, hdepth, hrun⟩ := collect_front ht htidy (by decide) (fun _ => mem_piecesOf)
    (fun _ => isDirectory_along ht hd habsolute) wantsDirectory hdeep rest
  rw [List.length_append, List.length_map] at hdepth
  refine ⟨depth, by omega, ?_⟩
  have hne : (piecesOf directory).map literally ++ rest ≠ [] := by
    simp [piecesOf, List.splitOn_ne_nil]
  rw [startOf, ← hrun, Query.run, following, if_neg (by simpa using hne)]

end StableWheel.Glob
