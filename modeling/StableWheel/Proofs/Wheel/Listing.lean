import StableWheel.Proofs.Wheel.Gathering
import StableWheel.Proofs.Wheel.ReadBack

/-! The list of all files, beside the files.

`Lists` goes through the rows that are read in a list and the members of an archive side by side.
Whatever is packed, the last member of the wheel is a list of it, no name occurs twice, and the
list lists the wheel, but for names that are not quoted for a carriage return
(`packed_lists_iff`). -/
namespace StableWheel

/-- One row for each member, in the same order: its name, the hash of what it holds and how many
bytes that is, but for the last member, which is the list itself. -/
inductive Lists : List (List String) → List Archive.Member → Prop where
  | list (m : Archive.Member) : Lists [[m.name, "", ""]] [m]
  | file {rows : List (List String)} {members : List Archive.Member} (m : Archive.Member) :
      Lists rows members →
      Lists ([m.name,
        "sha256=" ++ String.ofList (Digest.Base64Url.encode (Digest.Sha256.digest m.content)),
        toString m.content.size] :: rows) (m :: members)

/-- The hash of one byte, as it stands in a list. -/
example : Record.hash ⟨#[49]⟩ = "sha256=a4ayc_80_OGda4BO_1o_V0etpOqiLx1JwB5S3beHW0s" := by
  decide +kernel

/-- The names in the rows are the names of the members. -/
theorem Lists.names {rows : List (List String)} {members : List Archive.Member}
    (h : Lists rows members) : rows.map (·.head?) = members.map fun m => some m.name := by
  induction h with
  | list m => rfl
  | file m _ ih => rw [List.map_cons, List.map_cons, ih, List.head?_cons]

/-- There is one way to list members. -/
theorem Lists.unique {rows rows' : List (List String)} {members : List Archive.Member}
    (h : Lists rows members) (h' : Lists rows' members) : rows = rows' := by
  induction h generalizing rows' with
  | list m =>
    cases h' with
    | list => rfl
    | file m h' => cases h'
  | file m h ih =>
    cases h' with
    | list => cases h
    | file m h' => rw [ih h']

theorem lists_listedRows (members : List Archive.Member) (list : Archive.Member) :
    Lists ((listedRows members list.name).map Record.Row.fields) (members ++ [list]) := by
  induction members with
  | nil => exact .list list
  | cons m rest ih => exact .file m ih

theorem lists_iff {rows : List (List String)} {members : List Archive.Member}
    {list : Archive.Member} :
    Lists rows (members ++ [list]) ↔
      rows = (listedRows members list.name).map Record.Row.fields :=
  ⟨fun h => h.unique (lists_listedRows members list), fun h => h ▸ lists_listedRows members list⟩

/-- **The list of all files lists the wheel.** Whatever is packed, no name occurs twice among the
members of the wheel, the files that describe it are among them, and the last one is a text that
names itself. The rows that are read in it go with the members one for one and in order, each with
the name, the hash and the size of what the archive holds, and the last one with the list's own
name alone, if and only if every name with a carriage return has another character in it for which
names are quoted. No name occurs twice then among the rows. -/
theorem packed_lists_iff (w : Wheel) (staging dist wheel : Path) (s s' : Session)
    (h : (w.pack staging dist).run s = (.ok wheel, s')) :
    ∃ members list text, Wheel.Written dist wheel s.files s'.files (members ++ [list]) ∧
      list.name = w.recordName ∧ (∀ m ∈ w.description, m ∈ members) ∧
      ((members ++ [list]).map (·.name)).Nodup ∧
      Text.Utf8.strict? list.content = some text ∧
      (Lists (Text.Csv.read text) (members ++ [list]) ↔
        ∀ m ∈ members ++ [list], Record.Readable m.name) ∧
      (Lists (Text.Csv.read text) (members ++ [list]) →
        ((Text.Csv.read text).map (·.head?)).Nodup) := by
  obtain ⟨_, _, _, _, staged, -, hwritten, -, hnodup, -⟩ := Wheel.pack_written h
  refine ⟨staged ++ w.description, w.listing (staged ++ w.description),
    recordText (staged ++ w.description) w.recordName, hwritten, rfl,
    fun m hm => List.mem_append_right staged hm, hnodup, Text.Utf8.strict_toUTF8 _, ?_, ?_⟩
  · rw [lists_iff, ← List.forall_mem_map (P := Record.Readable), List.map_append,
      List.map_singleton]
    exact read_listedRows_iff (staged ++ w.description) w.recordName
  · intro hlists
    rw [hlists.names, ← Function.comp_def some, ← List.map_map]
    exact hnodup.map fun _ _ => Option.some.inj

/-! ### Two small wheels -/

/-- What is read in the list of all files of the archive at a place. -/
def listedAt (fs : FileSystem) (place : Location) : List (List String) :=
  match fs.lookup place with
  | some (.file ⟨.archive members, _⟩) =>
    match members.getLast?.bind fun list => Text.Utf8.strict? list.content with
    | some text => Text.Csv.read text
    | none => []
  | _ => []

/-- Where the small wheel is. -/
def demoPlace : Location := ["p", "dist", "demo-1.0-py3-none-any.whl"]

theorem demoPlace_resolved :
    (demoFiles.createDirectories ⟨"dist"⟩).2.resolve ⟨"dist/demo-1.0-py3-none-any.whl"⟩ .kept =
      .ok demoPlace := by decide +kernel

theorem Wheel.Written.memberNames {dist wheel : Path} {before after : FileSystem}
    {members : List Archive.Member} {place : Location}
    (h : Wheel.Written dist wheel before after members)
    (hplace : (before.createDirectories dist).2.resolve wheel .kept = .ok place) :
    memberNames after place = members.map (·.name) := by
  obtain ⟨place', hplace', hmembers⟩ := h
  obtain rfl : place = place' := Except.ok.inj (hplace.symm.trans hplace')
  rw [StableWheel.memberNames, hmembers]
  rfl

/-- The list of a wheel with one staged file lists the four files of the wheel. -/
theorem demo_packed_lists :
    ∃ members list text,
      Wheel.Written ⟨"dist"⟩ ⟨"dist/demo-1.0-py3-none-any.whl"⟩ demoFiles
        (demoPacking "lib" "dist").2.files (members ++ [list]) ∧
      Text.Utf8.strict? list.content = some text ∧
      Lists (Text.Csv.read text) (members ++ [list]) ∧
      (Text.Csv.read text).map (·.head?) =
        [some "a.py", some "demo-1.0.dist-info/METADATA", some "demo-1.0.dist-info/WHEEL",
          some "demo-1.0.dist-info/RECORD"] := by
  obtain ⟨members, list, text, hwritten, -, -, -, htext, hiff, -⟩ :=
    packed_lists_iff demoWheel ⟨"lib"⟩ ⟨"dist"⟩ ⟨"dist/demo-1.0-py3-none-any.whl"⟩
      (.ofFiles demoFiles) (demoPacking "lib" "dist").2 demoPacking_outcome
  have hnames : (members ++ [list]).map (·.name) = ["a.py", "demo-1.0.dist-info/METADATA",
      "demo-1.0.dist-info/WHEEL", "demo-1.0.dist-info/RECORD"] := by
    rw [← hwritten.memberNames demoPlace_resolved]
    decide +kernel
  have hreadable : ∀ name ∈ (members ++ [list]).map (·.name), Record.Readable name := by
    rw [hnames]
    decide
  have hlists := hiff.mpr (List.forall_mem_map.mp hreadable)
  refine ⟨members, list, text, hwritten, htext, hlists, ?_⟩
  rw [hlists.names, ← Function.comp_def some, ← List.map_map, hnames]
  rfl

/-- A directory with one file, whose name has a carriage return. -/
def returnFiles : FileSystem where
  entries :=
    [(["p"], .directory), (["p", "lib"], .directory),
      (["p", "lib", "a\rb.py"], .file ⟨.data ⟨#[49]⟩, false⟩)]
  workingDirectory := ["p"]

def returnPacking : Except WheelError Path × Session :=
  (demoWheel.pack ⟨"lib"⟩ ⟨"dist"⟩).run (.ofFiles returnFiles)

theorem returnPacking_ok :
    returnPacking.1 = .ok ⟨"dist/demo-1.0-py3-none-any.whl"⟩ ∧
      memberNames returnPacking.2.files demoPlace =
        ["a\rb.py", "demo-1.0.dist-info/METADATA", "demo-1.0.dist-info/WHEEL",
          "demo-1.0.dist-info/RECORD"] := by
  decide +kernel

theorem returnPacking_listed :
    (listedAt returnPacking.2.files demoPlace).map (·.head?) =
      [some "a", some "b.py", some "demo-1.0.dist-info/METADATA",
        some "demo-1.0.dist-info/WHEEL", some "demo-1.0.dist-info/RECORD"] := by
  decide +kernel

/-- Five rows are read in the list of a wheel of four files, so it does not list the wheel. -/
theorem carriage_return_adds_row :
    returnPacking.1 = .ok ⟨"dist/demo-1.0-py3-none-any.whl"⟩ ∧
      (memberNames returnPacking.2.files demoPlace).length = 4 ∧
      (listedAt returnPacking.2.files demoPlace).length = 5 ∧
      ∀ members, returnPacking.2.files.lookup demoPlace = some (.file (Packing.archiveFile members)) →
        ¬ Lists (listedAt returnPacking.2.files demoPlace) members := by
  have hrows : (listedAt returnPacking.2.files demoPlace).length = 5 := by
    simpa using congrArg List.length returnPacking_listed
  have hcount : (memberNames returnPacking.2.files demoPlace).length = 4 := by
    rw [returnPacking_ok.2]
    rfl
  refine ⟨returnPacking_ok.1, hcount, hrows, fun members hmembers hlists => ?_⟩
  have hsame := congrArg List.length hlists.names
  rw [List.length_map, List.length_map, hrows] at hsame
  rw [memberNames, hmembers] at hcount
  have hfour : members.length = 4 := (List.length_map _).symm.trans hcount
  omega

end StableWheel
