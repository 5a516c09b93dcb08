import Mathlib.Data.List.Basic
import StableWheel.Proofs.Text.Csv
import StableWheel.Wheel.Pack

/-! The list of all files, read back.

What stands in a row is written so that a reader of comma-separated rows takes it apart again.
The one gap is a carriage return: a name is not quoted for it, and where nothing else in the name
calls for quotes it ends the row. `recordText_read_iff` says that there is no other gap. -/
namespace StableWheel.Record
open Text.Csv

/-- The fields of a row. -/
def Row.fields (r : Row) : List String := [r.name, r.hash, r.size]

/-- A name that has no carriage return, or is quoted for another character. -/
def Readable (name : String) : Prop :=
  '\r' ∈ name.toList → name.toList.any isSpecial = true

instance (name : String) : Decidable (Readable name) := inferInstanceAs (Decidable (_ → _))

/-! ### Fields that need no quotes -/

theorem letter_plain (n : Nat) : Reader.Plain (Digest.Base64Url.letter n) := by
  have hplain : ∀ k < 123, 45 ≤ k → Reader.Plain (Char.ofNat k) := by
    unfold Reader.Plain
    decide
  unfold Digest.Base64Url.letter
  split
  · exact hplain _ (by omega) (by omega)
  · split
    · exact hplain _ (by omega) (by omega)
    · split
      · exact hplain _ (by omega) (by omega)
      · split <;> exact ⟨by decide, by decide, by decide, by decide⟩

theorem encode_plain (bytes : List UInt8) :
    ∀ c ∈ Digest.Base64Url.encode bytes, Reader.Plain c := by
  fun_induction Digest.Base64Url.encode bytes with
  | case1 a b c rest n ih => simpa [letter_plain] using ih
  | case2 a b n => simp [letter_plain]
  | case3 a => simp [letter_plain]
  | case4 => simp

theorem hash_plain (content : ByteArray) : ∀ c ∈ (hash content).toList, Reader.Plain c := by
  intro c hc
  rw [hash, String.toList_append, List.mem_append] at hc
  rcases hc with hc | hc
  · have hall : ∀ d ∈ "sha256=".toList, Reader.Plain d := by simp [Reader.Plain]
    exact hall c hc
  · rw [String.toList_ofList] at hc
    exact encode_plain _ c hc

theorem natural_plain (n : Nat) : ∀ c ∈ (Decimal.natural n).toList, Reader.Plain c := by
  intro c hc
  rw [Decimal.natural, String.toList_ofList, Decimal.digits] at hc
  have hdigit := Nat.isDigit_of_mem_toDigits (by decide) (by decide) hc
  refine ⟨?_, ?_, ?_, ?_⟩ <;> rintro rfl <;> exact absurd hdigit (by decide)

/-- Neither the hash nor the size of a row means anything to a reader. -/
structure Row.Plain (r : Row) : Prop where
  hash : ∀ c ∈ r.hash.toList, Reader.Plain c
  size : ∀ c ∈ r.size.toList, Reader.Plain c

theorem ofFile_plain (name : String) (content : ByteArray) : (Row.ofFile name content).Plain :=
  ⟨hash_plain content, natural_plain content.size⟩

theorem ofList_plain (name : String) : (Row.ofList name).Plain :=
  ⟨by simp [Row.ofList], by simp [Row.ofList]⟩

/-! ### One row -/

/-- Some rows have been read, and a new one begins. -/
def atRow (rows : List (List String)) : Reader := ⟨rows, [], [], .row⟩

theorem plain_of_unquoted {name : String} (h : name.toList.any isSpecial = false) {c : Char}
    (hc : c ∈ name.toList) (hreturn : c ≠ '\r') : Reader.Plain c := by
  have hspecial : isSpecial c = false := by simpa using List.any_eq_false.mp h c hc
  simp only [isSpecial, Bool.or_eq_false_iff, beq_eq_false_iff_ne] at hspecial
  exact ⟨hspecial.1.1, hspecial.1.2, hspecial.2, hreturn⟩

/-- A readable name is read as itself, whether it is quoted or not. -/
theorem run_name (rows : List (List String)) {name : String} (h : Readable name) :
    ∃ p, Reader.Settled p ∧
      (atRow rows).run (field name).toList = ⟨rows, [], name.toList, p⟩ := by
  unfold field
  cases hs : name.toList.any isSpecial with
  | true =>
    refine ⟨.closed, ⟨by decide, by decide⟩, ?_⟩
    rw [if_pos rfl, String.toList_ofList]
    exact Reader.run_quoted (.inl rfl) name.toList
  | false =>
    rw [if_neg Bool.false_ne_true]
    have hplain : ∀ c ∈ name.toList, Reader.Plain c := by
      intro c hc
      refine plain_of_unquoted hs hc ?_
      rintro rfl
      rw [h hc] at hs
      cases hs
    obtain ⟨p, hp, hrun⟩ := Reader.run_bare (r := atRow rows) (.inl rfl) hplain
    exact ⟨p, hp.settled, hrun⟩

theorem run_row (rows : List (List String)) {r : Row} (hr : r.Plain) (h : Readable r.name) :
    (atRow rows).run (r.text.toList ++ ['\n']) = atRow (rows ++ [r.fields]) := by
  have hcut : r.text.toList ++ ['\n'] = (field r.name).toList ++
      ',' :: (r.hash.toList ++ ',' :: (r.size.toList ++ ['\n'])) := by
    simp [Row.text]
  obtain ⟨p, hp, hname⟩ := run_name rows h
  obtain ⟨p', hp', hhash⟩ := Reader.run_bare (r := ⟨rows, [r.name], [], .field⟩) (.inr (.inl rfl))
    hr.hash
  obtain ⟨p'', hp'', hsize⟩ := Reader.run_bare (r := ⟨rows, [r.name, r.hash], [], .field⟩)
    (.inr (.inl rfl)) hr.size
  rw [hcut, Reader.run_append, hname, Reader.run_cons, Reader.step_comma hp]
  simp only [Reader.endField, String.ofList_toList, List.nil_append]
  rw [Reader.run_append, hhash, Reader.run_cons, Reader.step_comma hp'.settled]
  simp only [Reader.endField, String.ofList_toList, List.nil_append, List.cons_append]
  rw [Reader.run_append, hsize, Reader.run_cons, Reader.step_lineFeed hp''.settled]
  simp [Reader.endRow, Reader.run, atRow, Row.fields]

/-- A carriage return that no quote surrounds ends the row in the middle of the name. -/
theorem run_unreadable (rows : List (List String)) {r : Row} (h : ¬ Readable r.name)
    (rest : List Char) : ∃ piece,
      rows ++ [[piece]] <+: ((atRow rows).run (r.text.toList ++ rest)).rows := by
  obtain ⟨hreturn, hs⟩ : '\r' ∈ r.name.toList ∧ r.name.toList.any isSpecial = false := by
    simpa [Readable] using h
  obtain ⟨before, after, hname, hfirst⟩ := List.eq_append_cons_of_mem hreturn
  have hplain : ∀ c ∈ before, Reader.Plain c := fun c hc =>
    plain_of_unquoted hs (by rw [hname]; exact List.mem_append_left _ hc)
      (fun heq => hfirst (heq ▸ hc))
  obtain ⟨p, hp, hrun⟩ := Reader.run_bare (r := atRow rows) (.inl rfl) hplain
  have hfield : field r.name = r.name := by
    rw [field, hs, if_neg Bool.false_ne_true]
  have hcut : r.text.toList ++ rest = before ++
      '\r' :: (after ++ ',' :: (r.hash.toList ++ ',' :: (r.size.toList ++ rest))) := by
    simp [Row.text, hfield, hname]
  refine ⟨String.ofList before, ?_⟩
  rw [hcut, Reader.run_append, hrun, Reader.run_cons, Reader.step_return hp.settled]
  exact Reader.run_rows ((⟨rows, [], before, p⟩ : Reader).endRow .returned) _

/-! ### All rows -/

/-- Each row with the end of its line. -/
def lines (rows : List Row) : List Char := rows.flatMap fun r => r.text.toList ++ ['\n']

theorem toList_text {rows : List Row} (h : rows ≠ []) : (text rows).toList = lines rows := by
  induction rows with
  | nil => exact absurd rfl h
  | cons first rest ih =>
    cases rest with
    | nil => simp [text, Text.join, lines]
    | cons second rest =>
      have hrest := ih (by simp)
      rw [lines, List.flatMap_cons, ← lines, ← hrest]
      simp [text, Text.join]

theorem run_lines (before : List (List String)) {rows : List Row} (hrows : ∀ r ∈ rows, r.Plain)
    (h : ∀ r ∈ rows, Readable r.name) :
    (atRow before).run (lines rows) = atRow (before ++ rows.map Row.fields) := by
  induction rows generalizing before with
  | nil => simp [lines, Reader.run]
  | cons r rest ih =>
    rw [lines, List.flatMap_cons, ← lines, Reader.run_append,
      run_row before (hrows r (List.mem_cons_self ..)) (h r (List.mem_cons_self ..)),
      ih _ (fun r' hr' => hrows r' (List.mem_cons_of_mem r hr'))
        (fun r' hr' => h r' (List.mem_cons_of_mem r hr'))]
    simp

/-- The first row that cannot be read back is cut short in what is read. -/
theorem run_lines_unreadable (before : List (List String)) {rows : List Row}
    (hrows : ∀ r ∈ rows, r.Plain) (h : ∃ r ∈ rows, ¬ Readable r.name) :
    ((atRow before).run (lines rows)).finish ≠ before ++ rows.map Row.fields := by
  induction rows generalizing before with
  | nil => obtain ⟨r, hr, -⟩ := h; cases hr
  | cons r rest ih =>
    rw [lines, List.flatMap_cons, ← lines]
    by_cases hr : Readable r.name
    · have hlater : ∃ r' ∈ rest, ¬ Readable r'.name := by
        obtain ⟨r', hr', hbad⟩ := h
        rcases List.mem_cons.mp hr' with rfl | hr'
        · exact absurd hr hbad
        · exact ⟨r', hr', hbad⟩
      have hrest := ih (before ++ [r.fields])
        (fun r' hr' => hrows r' (List.mem_cons_of_mem r hr')) hlater
      rw [Reader.run_append, run_row before (hrows r (List.mem_cons_self ..)) hr]
      simpa using hrest
    · intro heq
      obtain ⟨piece, hpiece⟩ := run_unreadable before hr ('\n' :: lines rest)
      rw [List.append_assoc, List.singleton_append] at heq
      -- the row that is read has one field, the row that was written has three
      have hread := hpiece.trans (Reader.finish_rows _)
      rw [heq] at hread
      rw [List.prefix_append_right_inj, List.map_cons, List.cons_prefix_cons] at hread
      exact absurd (congrArg List.length hread.1) (by simp [Row.fields])

theorem read_text_iff {rows : List Row} (hne : rows ≠ []) (hrows : ∀ r ∈ rows, r.Plain) :
    Text.Csv.read (text rows) = rows.map Row.fields ↔ ∀ r ∈ rows, Readable r.name := by
  rw [Text.Csv.read, toList_text hne]
  constructor
  · intro h
    by_contra hbad
    push Not at hbad
    exact run_lines_unreadable [] hrows hbad h
  · intro h
    show ((atRow []).run (lines rows)).finish = _
    rw [run_lines [] hrows h]
    rfl

end StableWheel.Record

namespace StableWheel

/-- The rows that a list of all files is written from. -/
def listedRows (members : List Archive.Member) (recordName : String) : List Record.Row :=
  members.map (fun m => Record.Row.ofFile m.name m.content) ++ [Record.Row.ofList recordName]

theorem listedRows_plain (members : List Archive.Member) (recordName : String) :
    ∀ r ∈ listedRows members recordName, r.Plain := by
  intro r hr
  rcases List.mem_append.mp hr with hr | hr
  · obtain ⟨m, -, rfl⟩ := List.mem_map.mp hr
    exact Record.ofFile_plain m.name m.content
  · rw [List.mem_singleton.mp hr]
    exact Record.ofList_plain recordName

theorem read_listedRows_iff (members : List Archive.Member) (recordName : String) :
    Text.Csv.read (recordText members recordName) =
        (listedRows members recordName).map Record.Row.fields ↔
      ∀ name ∈ members.map (·.name) ++ [recordName], Record.Readable name := by
  have hnames : (listedRows members recordName).map (·.name) =
      members.map (·.name) ++ [recordName] := by
    simp [listedRows, Record.Row.ofFile, Record.Row.ofList, Function.comp_def]
  rw [← hnames, List.forall_mem_map]
  exact Record.read_text_iff (List.concat_ne_nil _ _) (listedRows_plain members recordName)

/-- **Exactly when the list of all files reads back.** Whatever files there are, a reader of
comma-separated rows finds in the list the rows that were written, each with its name, its hash
and its size, if and only if every name with a carriage return has another character in it for
which names are quoted. -/
theorem recordText_read_iff (members : List Archive.Member) (recordName : String) :
    Text.Csv.read (recordText members recordName) =
        members.map (fun m => [m.name, Record.hash m.content, Decimal.natural m.content.size])
          ++ [[recordName, "", ""]] ↔
      ∀ name ∈ members.map (·.name) ++ [recordName], Record.Readable name := by
  rw [← read_listedRows_iff]
  simp [listedRows, Record.Row.fields, Record.Row.ofFile, Record.Row.ofList, Function.comp_def]

/-- A file whose name has a carriage return, and nothing else to quote it for. -/
def returnMember : Archive.Member := wheelMember "a\rb.py" ⟨#[49]⟩

/-- The list of such a file has one row more than it should. -/
theorem carriage_return_splits_row :
    Text.Csv.read (recordText [returnMember] "RECORD") ≠
        [["a\rb.py", Record.hash ⟨#[49]⟩, "1"], ["RECORD", "", ""]] ∧
      (Text.Csv.read (recordText [returnMember] "RECORD")).map List.length = [1, 3, 3] := by
  decide +kernel

end StableWheel
