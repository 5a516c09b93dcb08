import Mathlib.Data.List.Induction
import StableWheel.Package.Layout
import StableWheel.Proofs.Text.Pieces

/-! Which directory a package comes from.

The search for the longest mapped start of a name comes to a rule that needs no search: a mapped
package comes from its own directory, and any other one from a directory inside that of the package
above it (`dirOf_concat`). All else follows from this rule, part by part: which start of a name
decides (`dirOf_cases`), and that mappings of other names do not count (`dirOf_congr`). -/
namespace StableWheel.PackageLayout
open Text (pieces filledPieces join)

/-! ### Names of packages -/

theorem of_mem_parts {package part : String} (h : part ∈ parts package) :
    part ≠ "" ∧ '.' ∉ part.toList := by
  obtain ⟨hmem, hfilled⟩ := List.mem_filter.mp h
  obtain ⟨piece, hpiece, rfl⟩ := List.mem_map.mp hmem
  refine ⟨by simpa using hfilled, ?_⟩
  rw [String.toList_ofList]
  exact (Text.of_mem_splitOn hpiece).1

theorem parts_eq_filter (package : String) :
    parts package = (pieces '.' package).filter (· ≠ "") := by
  refine List.filter_congr fun piece _ => ?_
  rw [Bool.eq_iff_iff]
  simp

theorem parts_empty : parts "" = [] := by
  simp [parts, filledPieces, pieces]

theorem parts_dot (a b : String) : parts (a ++ "." ++ b) = parts a ++ parts b := by
  have hcut : pieces '.' (a ++ "." ++ b) = pieces '.' a ++ pieces '.' b := Text.pieces_append a b
  rw [parts, filledPieces, hcut, List.filter_append]
  rfl

/-- Parts that are put together are found again. -/
theorem parts_join {names : List String} (h : ∀ name ∈ names, name ≠ "" ∧ '.' ∉ name.toList) :
    parts (join "." names) = names := by
  cases names with
  | nil => exact parts_empty
  | cons first rest =>
    have hcut : pieces '.' (join "." (first :: rest)) = first :: rest :=
      Text.pieces_join fun name hname => (h name hname).2
    rw [parts, filledPieces, hcut, List.filter_eq_self]
    intro name hname
    simpa using (h name hname).1

theorem parts_start {start : List String} {package : String} (h : start <+: parts package) :
    parts (join "." start) = start :=
  parts_join fun _ hname => of_mem_parts (h.subset hname)

/-! ### The rule -/

/-- The directory that a name of these parts is mapped to. -/
def mapped (l : PackageLayout) (names : List String) : Option Path :=
  l.directories.lookup (join "." names)

/-- The directory of a package whose name has these parts. -/
def dirOf (l : PackageLayout) (names : List String) : Path :=
  match mappedStart l.directories names names.length with
  | some directory => directory
  | none => ((l.mapped []).getD ⟨""⟩).extend names

section
variable {l l' : PackageLayout} {names : List String}

theorem sourceDir_eq (l : PackageLayout) (package : String) :
    l.sourceDir package = l.dirOf (parts package) := rfl

theorem extend_concat (p : Path) (names : List String) (last : String) :
    p.extend (names ++ [last]) = (p.extend names).join ⟨last⟩ :=
  Path.extend_append p names [last]

/-- One more part makes no difference for which shorter start is mapped. -/
theorem mappedStart_concat (directories : List (String × Path)) (last : String) {n : Nat}
    (h : n ≤ names.length) :
    mappedStart directories (names ++ [last]) n =
      (mappedStart directories names n).map fun directory => directory.join ⟨last⟩ := by
  induction n with
  | zero => rfl
  | succ n ih =>
    rw [mappedStart, mappedStart, List.take_append_of_le_length h, List.drop_append_of_le_length h]
    split
    · rw [extend_concat]
      rfl
    · exact ih (Nat.le_of_succ_le h)

theorem dirOf_nil (l : PackageLayout) : l.dirOf [] = (l.mapped []).getD ⟨""⟩ := rfl

/-- A mapped package comes from its own directory, and any other one from a directory inside that of
the package above it. -/
theorem dirOf_concat (l : PackageLayout) (names : List String) (last : String) :
    l.dirOf (names ++ [last]) =
      (l.mapped (names ++ [last])).getD ((l.dirOf names).join ⟨last⟩) := by
  have hlength : (names ++ [last]).length = names.length + 1 := by simp
  have hmapped : l.mapped (names ++ [last]) = l.directories.lookup (join "." (names ++ [last])) := rfl
  rw [dirOf, dirOf, hlength, mappedStart, List.take_of_length_le hlength.le,
    List.drop_of_length_le hlength.le, mappedStart_concat l.directories last le_rfl, hmapped]
  cases l.directories.lookup (join "." (names ++ [last])) with
  | some directory => rfl
  | none =>
    cases mappedStart l.directories names names.length with
    | some directory => rfl
    | none => exact extend_concat _ names last

/-! ### What follows from it -/

/-- The longest start of a name that has a directory of its own. -/
structure LongestMapped (l : PackageLayout) (names start : List String) (directory : Path) :
    Prop where
  opens : start <+: names
  filled : start ≠ []
  mapped : l.mapped start = some directory
  longest : ∀ longer, longer <+: names → start.length < longer.length → l.mapped longer = none

theorem dirOf_of_mapped {directory : Path} (h : l.mapped names = some directory) :
    l.dirOf names = directory := by
  rcases List.eq_nil_or_concat names with rfl | ⟨front, last, rfl⟩
  · rw [dirOf_nil, h]
    rfl
  · rw [List.concat_eq_append] at h ⊢
    rw [dirOf_concat, h]
    rfl

/-- The longest mapped start of a name decides; and if there is none, what holds for all packages
does. -/
theorem dirOf_cases (l : PackageLayout) (names : List String) :
    (∃ start rest directory, names = start ++ rest ∧ l.LongestMapped names start directory ∧
      l.dirOf names = directory.extend rest) ∨
    (∀ start, start <+: names → start ≠ [] → l.mapped start = none) ∧
      l.dirOf names = ((l.mapped []).getD ⟨""⟩).extend names := by
  induction names using List.reverseRecOn with
  | nil => exact .inr ⟨fun start hopens hfilled => absurd (List.prefix_nil.mp hopens) hfilled, rfl⟩
  | append_singleton names last ih =>
    rcases hmapped : l.mapped (names ++ [last]) with _ | directory
    · have hdir : l.dirOf (names ++ [last]) = (l.dirOf names).join ⟨last⟩ := by
        rw [dirOf_concat, hmapped]
        rfl
      rcases ih with ⟨start, rest, directory, hnames, hstart, hbefore⟩ | ⟨hnone, hbefore⟩
      · refine .inl ⟨start, rest ++ [last], directory, by rw [hnames, List.append_assoc],
          ⟨hstart.opens.trans (List.prefix_append ..), hstart.filled, hstart.mapped, ?_⟩, ?_⟩
        · intro longer hopens hlonger
          rcases List.prefix_concat_iff.mp hopens with rfl | hopens
          · exact hmapped
          · exact hstart.longest longer hopens hlonger
        · rw [hdir, hbefore, extend_concat]
      · refine .inr ⟨fun start hopens hfilled => ?_, by rw [hdir, hbefore, extend_concat]⟩
        rcases List.prefix_concat_iff.mp hopens with rfl | hopens
        · exact hmapped
        · exact hnone start hopens hfilled
    · refine .inl ⟨names ++ [last], [], directory, by simp,
        ⟨List.prefix_rfl, by simp, hmapped, ?_⟩, dirOf_of_mapped hmapped⟩
      intro longer hopens hlonger
      exact absurd hopens.length_le (Nat.not_le.mpr hlonger)

/-- Only the mappings of the starts of a name count. -/
theorem dirOf_congr (h : ∀ start, start <+: names → l'.mapped start = l.mapped start) :
    l'.dirOf names = l.dirOf names := by
  induction names using List.reverseRecOn with
  | nil => rw [dirOf_nil, dirOf_nil, h [] List.prefix_rfl]
  | append_singleton names last ih =>
    rw [dirOf_concat, dirOf_concat, h _ List.prefix_rfl,
      ih fun start hopens => h start (hopens.trans (List.prefix_append ..))]

/-! ### Mappings that do not count -/

/-- The layouts map all names alike, but for one. -/
def AlikeBut (key : String) (l l' : PackageLayout) : Prop :=
  ∀ other, other ≠ key → l'.directories.lookup other = l.directories.lookup other

theorem alikeBut_insert {key : String} {directory : Path} {before after : List (String × Path)}
    (h : l.directories = before ++ after) :
    AlikeBut key l { l with directories := before ++ (key, directory) :: after } := by
  intro other hother
  have hskip : (other == key) = false := beq_eq_false_iff_ne.mpr hother
  rw [h, List.lookup_append, List.lookup_append, List.lookup_cons, hskip]

/-- The name is empty, or it consists of the first parts of a package's name. -/
def Opens (key package : String) : Prop :=
  ∃ start, start <+: parts package ∧ join "." start = key

theorem sourceDir_of_other {key package : String} (h : AlikeBut key l l')
    (hkey : ¬Opens key package) : l'.sourceDir package = l.sourceDir package := by
  rw [sourceDir_eq, sourceDir_eq]
  exact dirOf_congr fun start hopens => h _ fun hstart => hkey ⟨start, hopens, hstart⟩

theorem parts_of_undotted {name : String} (hfilled : name ≠ "") (h : '.' ∉ name.toList) :
    parts name = [name] := by
  simp [parts, filledPieces, Text.pieces_of_not_mem h, hfilled]

/-- A part goes on up to the next dot. -/
theorem parts_longer {name : String} {c : Char} (hname : '.' ∉ name.toList) (hc : c ≠ '.')
    (more : String) :
    ∃ part others, parts (name ++ (String.singleton c ++ more)) =
      (name ++ (String.singleton c ++ part)) :: others := by
  have hpart : ∀ {part : String}, '.' ∉ part.toList →
      parts (name ++ (String.singleton c ++ part)) = [name ++ (String.singleton c ++ part)] := by
    intro part hpart
    refine parts_of_undotted ?_ (by simp [hname, hpart, hc.symm])
    rw [← String.toList_inj.ne]
    simp
  by_cases hmore : '.' ∈ more.toList
  · obtain ⟨part, rest, hcut, hnone⟩ := List.eq_append_cons_of_mem hmore
    have htext : name ++ (String.singleton c ++ more) =
        name ++ (String.singleton c ++ String.ofList part) ++ "." ++ String.ofList rest := by
      rw [← String.toList_inj]
      simp [hcut]
    rw [htext, parts_dot, hpart (by simpa using hnone)]
    exact ⟨_, _, rfl⟩
  · exact ⟨more, [], hpart hmore⟩

theorem not_start_longer {start : List String} (hstart : start ≠ [])
    (h : ∀ part ∈ start, part ≠ "" ∧ '.' ∉ part.toList) {c : Char} (hc : c ≠ '.') (more : String) :
    ¬start <+: parts (join "." start ++ (String.singleton c ++ more)) := by
  induction start with
  | nil => exact absurd rfl hstart
  | cons first rest ih =>
    obtain ⟨hfilled, hfirst⟩ := h first (List.mem_cons_self ..)
    cases rest with
    | nil =>
      -- the only part has become longer
      have hjoin : join "." [first] = first := by simp [join]
      obtain ⟨part, others, hparts⟩ := parts_longer hfirst hc more
      rw [hjoin, hparts, List.cons_prefix_cons]
      rintro ⟨hsame, -⟩
      have hlength := congrArg String.length hsame
      simp only [String.length_append, String.length_singleton] at hlength
      omega
    | cons second rest =>
      have hjoin : join "." (first :: second :: rest) ++ (String.singleton c ++ more) =
          first ++ "." ++ (join "." (second :: rest) ++ (String.singleton c ++ more)) := by
        simp [join, String.intercalate_cons_cons, String.append_assoc]
      rw [hjoin, parts_dot, parts_of_undotted hfilled hfirst, List.singleton_append,
        List.cons_prefix_cons]
      rintro ⟨-, hopens⟩
      exact ih (List.cons_ne_nil _ _) (fun part hpart => h part (List.mem_cons_of_mem _ hpart)) hopens

/-- A name does not open one that only starts with the same letters. -/
theorem not_opens_longer {name : String} (hname : name ≠ "") {c : Char} (hc : c ≠ '.')
    (more : String) : ¬Opens name (name ++ (String.singleton c ++ more)) := by
  rintro ⟨start, hopens, rfl⟩
  have hstart : start ≠ [] := by
    rintro rfl
    exact hname rfl
  exact not_start_longer hstart (fun _ hpart => of_mem_parts (hopens.subset hpart)) hc more hopens

end

/-! ### The directory of a package -/

/-- What the directory of a package depends on. -/
structure FollowsMappings (l : PackageLayout) (package : String) : Prop where
  /-- The longest start of its name that is mapped decides, or else what holds for all packages. -/
  longest :
    (∃ start rest directory, parts package = start ++ rest ∧
      l.LongestMapped (parts package) start directory ∧
      l.sourceDir package = directory.extend rest) ∨
    (∀ start, start <+: parts package → start ≠ [] → l.mapped start = none) ∧
      l.sourceDir package = ((l.directories.lookup "").getD ⟨""⟩).extend (parts package)
  /-- A package that is mapped comes from there. -/
  own : ∀ directory, l.mapped (parts package) = some directory → l.sourceDir package = directory
  /-- Any other one comes from inside the directory of the package above it. -/
  above : ∀ front last, parts package = front ++ [last] → l.mapped (parts package) = none →
    l.sourceDir package = (l.sourceDir (join "." front)).join ⟨last⟩
  /-- Empty pieces in a name do not count. -/
  idle : ∀ package',
    (pieces '.' package').filter (· ≠ "") = (pieces '.' package).filter (· ≠ "") →
      l.sourceDir package' = l.sourceDir package
  /-- So a dot may stand in front of a name, behind it or next to another dot. -/
  dots : l.sourceDir ("." ++ package) = l.sourceDir package ∧
    l.sourceDir (package ++ ".") = l.sourceDir package ∧
    ∀ a b, package = a ++ "." ++ b → l.sourceDir (a ++ ".." ++ b) = l.sourceDir package
  /-- A further mapping of a name that does not open the package's makes no difference. -/
  further : ∀ before after key directory, l.directories = before ++ after → ¬Opens key package →
    { l with directories := before ++ (key, directory) :: after }.sourceDir package =
      l.sourceDir package
  /-- Nor does any mapping of a name that this one merely starts with. -/
  lookalike : ∀ name c more l', package = name ++ (String.singleton c ++ more) → name ≠ "" →
    c ≠ '.' → AlikeBut name l l' → l'.sourceDir package = l.sourceDir package

/-- **Where packages come from.** Whatever is mapped and however a package is called, the longest
start of its name that is mapped decides where it comes from. So a mapped package comes from the
directory that it is mapped to and any other one from inside the directory of the package above it;
empty pieces in its name do not count, and neither do mappings of names that do not open it. -/
theorem sourceDir_follows (l : PackageLayout) (package : String) : l.FollowsMappings package where
  longest := l.dirOf_cases (parts package)
  own _ h := dirOf_of_mapped h
  above front last hparts hnone := by
    have hfront : front <+: parts package := ⟨[last], hparts.symm⟩
    rw [sourceDir_eq, sourceDir_eq, parts_start hfront, hparts, dirOf_concat, ← hparts, hnone]
    rfl
  idle package' h := by
    rw [sourceDir_eq, sourceDir_eq, parts_eq_filter, parts_eq_filter, h]
  dots := by
    have hfront : parts ("." ++ package) = parts package := by
      simpa [parts_empty] using parts_dot "" package
    have hback : parts (package ++ ".") = parts package := by
      simpa [parts_empty] using parts_dot package ""
    refine ⟨by rw [sourceDir_eq, hfront, sourceDir_eq], by rw [sourceDir_eq, hback, sourceDir_eq], ?_⟩
    rintro a b rfl
    have hdots : a ++ ".." ++ b = a ++ "." ++ "" ++ "." ++ b := by
      rw [← String.toList_inj]
      simp
    rw [sourceDir_eq, sourceDir_eq, hdots, parts_dot, parts_dot, parts_dot, parts_empty,
      List.append_nil]
  further _ _ _ _ h hkey := sourceDir_of_other (alikeBut_insert h) hkey
  lookalike name c more l' hpackage hname hc hsame := by
    rw [hpackage]
    exact sourceDir_of_other hsame (not_opens_longer hname hc more)

example : ["foo", ".foo..bar", "foobar"].map
    (sourceDir ⟨[], [("", ⟨"src"⟩), ("foo", ⟨"lib"⟩)], []⟩) =
      [⟨"lib"⟩, ⟨"lib/bar"⟩, ⟨"src/foobar"⟩] := by
  decide +kernel

end StableWheel.PackageLayout
