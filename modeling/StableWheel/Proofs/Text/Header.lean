import Mathlib.Data.List.Basic
import Mathlib.Data.List.TakeWhile
import StableWheel.Text.Split

/-! Reading blocks of header fields.

Each line is a field: a name, a colon with a blank behind it, and a value. The block goes on to the
first empty line or to the end of the text. Fields that are written one a line read back exactly
when no value holds what ends a line for the reader (`read_written_iff`); the first value that does
is cut short (`read_broken`), and what follows in it is read as lines of its own. -/
namespace StableWheel.Text.Header

/-! ### Lines -/

/-- What ends a line for a reader. -/
inductive LineEnds where
  /-- A line feed. -/
  | feeds
  /-- A line feed or a carriage return, alone or as a pair. -/
  | feedsAndReturns
  deriving Repr, DecidableEq

/-- Carriage returns as line feeds; a line feed right behind a return is dropped. -/
def unified (returned : Bool) : List Char → List Char
  | [] => []
  | c :: rest =>
    if c = '\r' then '\n' :: unified true rest
    else if returned && c == '\n' then unified false rest
    else c :: unified false rest

namespace LineEnds

/-- The characters that end a line. -/
def Ends (ends : LineEnds) (c : Char) : Prop := c = '\n' ∨ (ends = feedsAndReturns ∧ c = '\r')

instance (ends : LineEnds) (c : Char) : Decidable (ends.Ends c) :=
  inferInstanceAs (Decidable (_ ∨ _))

/-- The text with a line feed at the end of each line. -/
def normal (ends : LineEnds) (cs : List Char) : List Char :=
  match ends with
  | feeds => cs
  | feedsAndReturns => unified false cs

/-- The lines of a text. -/
def lines (ends : LineEnds) (cs : List Char) : List (List Char) := (ends.normal cs).splitOn '\n'

end LineEnds

theorem unified_append {line : List Char} (h : '\r' ∉ line) (rest : List Char) :
    unified false (line ++ rest) = line ++ unified false rest := by
  induction line with
  | nil => rfl
  | cons c line ih =>
    rw [List.mem_cons, not_or] at h
    rw [List.cons_append, unified, if_neg (Ne.symm h.1), Bool.false_and, if_neg (by decide),
      ih h.2, List.cons_append]

namespace LineEnds

variable {ends : LineEnds} {line : List Char}

/-- What holds no end of a line stays as it is. -/
theorem normal_append (h : ∀ c ∈ line, ¬ ends.Ends c) (rest : List Char) :
    ends.normal (line ++ rest) = line ++ ends.normal rest := by
  cases ends with
  | feeds => rfl
  | feedsAndReturns => exact unified_append (fun hmem => h '\r' hmem (.inr ⟨rfl, rfl⟩)) rest

theorem normal_end {c : Char} (h : ends.Ends c) (rest : List Char) :
    ∃ more, ends.normal (c :: rest) = '\n' :: more := by
  rcases h with rfl | ⟨rfl, rfl⟩
  · cases ends <;> exact ⟨_, rfl⟩
  · exact ⟨_, rfl⟩

/-- A line that holds no end of one is the first line of what it stands in front of. -/
theorem splitOn_normal (h : ∀ c ∈ line, ¬ ends.Ends c) (more : List Char) :
    (line ++ '\n' :: more).splitOn '\n' = line :: more.splitOn '\n' := by
  have hfeed : '\n' ∉ line := fun hmem => h '\n' hmem (.inl rfl)
  rw [List.splitOn_append_cons_self, List.splitOn_eq_singleton hfeed]
  rfl

theorem lines_append (h : ∀ c ∈ line, ¬ ends.Ends c) (rest : List Char) :
    ends.lines (line ++ '\n' :: rest) = line :: ends.lines rest := by
  have hfeed : ends.normal ('\n' :: rest) = '\n' :: ends.normal rest := by
    cases ends <;> rfl
  rw [lines, normal_append h, hfeed, splitOn_normal h]
  rfl

theorem lines_broken (h : ∀ c ∈ line, ¬ ends.Ends c) {c : Char} (hc : ends.Ends c)
    (rest : List Char) : ∃ more, ends.lines (line ++ c :: rest) = line :: more := by
  obtain ⟨more, hmore⟩ := normal_end hc rest
  exact ⟨_, by rw [lines, normal_append h, hmore, splitOn_normal h]⟩

end LineEnds

/-! ### Fields -/

/-- The field that a line is: what stands before the first colon with a blank behind it, and what
stands behind these. -/
def fieldOf : List Char → Option (List Char × List Char)
  | ':' :: ' ' :: value => some ([], value)
  | c :: rest => (fieldOf rest).map fun f => (c :: f.1, f.2)
  | [] => none

/-- The fields of a block. A line that is none is passed over. -/
def fieldsIn (lines : List (List Char)) : List (String × String) :=
  ((lines.takeWhile fun line => !line.isEmpty).filterMap fieldOf).map fun f =>
    (String.ofList f.1, String.ofList f.2)

/-- The fields at the head of a text. -/
def read (ends : LineEnds) (text : String) : List (String × String) :=
  fieldsIn (ends.lines text.toList)

/-- What a field says; of several with one name the first one counts. -/
def value? (ends : LineEnds) (text name : String) : Option String := (read ends text).lookup name

/-- A field as a line. -/
def line (f : String × String) : String := f.1 ++ ": " ++ f.2 ++ "\n"

/-- Fields, one a line. -/
def written (fields : List (String × String)) : String := String.join (fields.map line)

/-- A name that is none of the signs of a header. -/
def Plain (name : String) : Prop := ∀ c ∈ name.toList, c ≠ ':' ∧ c ≠ '\n' ∧ c ≠ '\r'

instance (name : String) : Decidable (Plain name) := List.decidableBAll _ _

/-- For a reader this text is one line. -/
def Unbroken (ends : LineEnds) (s : String) : Prop := ∀ c ∈ s.toList, ¬ ends.Ends c

instance (ends : LineEnds) (s : String) : Decidable (Unbroken ends s) := List.decidableBAll _ _

theorem Plain.unbroken {name : String} (h : Plain name) (ends : LineEnds) : Unbroken ends name := by
  rintro c hc (rfl | ⟨-, rfl⟩)
  · exact (h _ hc).2.1 rfl
  · exact (h _ hc).2.2 rfl

theorem fieldOf_append {name : List Char} (h : ':' ∉ name) (value : List Char) :
    fieldOf (name ++ ':' :: ' ' :: value) = some (name, value) := by
  induction name with
  | nil => rfl
  | cons c name ih =>
    rw [List.mem_cons, not_or] at h
    rw [List.cons_append, fieldOf.eq_2 _ _ fun _ hcolon _ => h.1 hcolon.symm, ih h.2]
    rfl

theorem fieldsIn_cons {name value : List Char} (h : ':' ∉ name) (more : List (List Char)) :
    fieldsIn ((name ++ ':' :: ' ' :: value) :: more) =
      (String.ofList name, String.ofList value) :: fieldsIn more := by
  have hfilled : (!(name ++ ':' :: ' ' :: value).isEmpty) = true := by
    cases name <;> rfl
  unfold fieldsIn
  rw [List.takeWhile_cons, if_pos hfilled, List.filterMap_cons_some (fieldOf_append h value)]
  rfl

section
variable {ends : LineEnds} {f : String × String}

theorem unbroken_line (hname : Plain f.1) {value : List Char} (hvalue : ∀ c ∈ value, ¬ ends.Ends c) :
    ∀ c ∈ f.1.toList ++ ':' :: ' ' :: value, ¬ ends.Ends c := by
  have hsign : ∀ c, c = ':' ∨ c = ' ' → ¬ ends.Ends c := by
    rintro c (rfl | rfl) (hfeed | ⟨-, hreturn⟩)
    all_goals contradiction
  intro c hc
  rcases List.mem_append.mp hc with hc | hc
  · exact hname.unbroken ends c hc
  · rcases List.mem_cons.mp hc with hc | hc
    · exact hsign c (.inl hc)
    · rcases List.mem_cons.mp hc with hc | hc
      · exact hsign c (.inr hc)
      · exact hvalue c hc

theorem line_toList (f : String × String) (rest : String) :
    (line f ++ rest).toList = f.1.toList ++ ':' :: ' ' :: (f.2.toList ++ '\n' :: rest.toList) := by
  simp [line]

/-- A line with no end of one in its value reads as the field that it is. -/
theorem read_line (hname : Plain f.1) (hvalue : Unbroken ends f.2) (rest : String) :
    read ends (line f ++ rest) = f :: read ends rest := by
  have hcolon : ':' ∉ f.1.toList := fun hmem => (hname ':' hmem).1 rfl
  have htext : (line f ++ rest).toList =
      (f.1.toList ++ ':' :: ' ' :: f.2.toList) ++ '\n' :: rest.toList := by
    rw [line_toList, List.append_assoc]
    rfl
  rw [read, htext, LineEnds.lines_append (unbroken_line hname hvalue), fieldsIn_cons hcolon,
    String.ofList_toList, String.ofList_toList]
  rfl

/-- The end of a line cuts a value short. -/
theorem read_broken (hname : Plain f.1) (hvalue : ¬ Unbroken ends f.2) (rest : String) :
    ∃ value more, read ends (line f ++ rest) = (f.1, value) :: more ∧
      value.length < f.2.length := by
  have hcolon : ':' ∉ f.1.toList := fun hmem => (hname ':' hmem).1 rfl
  obtain ⟨before, c, after, hcut, hbefore, hc⟩ : ∃ before c after,
      f.2.toList = before ++ c :: after ∧ (∀ d ∈ before, ¬ ends.Ends d) ∧ ends.Ends c := by
    obtain ⟨d, hd, hends⟩ : ∃ d ∈ f.2.toList, ends.Ends d := by simpa [Unbroken] using hvalue
    have hsome : (f.2.toList.find? fun c => decide (ends.Ends c)).isSome :=
      List.find?_isSome.mpr ⟨d, hd, decide_eq_true hends⟩
    obtain ⟨c, hfirst⟩ := Option.isSome_iff_exists.mp hsome
    obtain ⟨hc, before, after, hcut, hbefore⟩ := List.find?_eq_some_iff_append.mp hfirst
    exact ⟨before, c, after, hcut, fun d hd => by simpa using hbefore d hd, of_decide_eq_true hc⟩
  have htext : (line f ++ rest).toList =
      (f.1.toList ++ ':' :: ' ' :: before) ++ c :: (after ++ '\n' :: rest.toList) := by
    rw [line_toList, hcut]
    simp
  obtain ⟨more, hmore⟩ := LineEnds.lines_broken (unbroken_line hname hbefore) hc
    (after ++ '\n' :: rest.toList)
  refine ⟨String.ofList before, fieldsIn more, ?_, ?_⟩
  · rw [read, htext, hmore, fieldsIn_cons hcolon, String.ofList_toList]
  · rw [← String.length_toList (s := f.2), hcut]
    simp

end

/-- **Exactly when fields read back.** Whichever characters end a line for the reader, it finds in
fields that were written one a line the fields that were written, if and only if none of these
characters is in a value. -/
theorem read_written_iff (ends : LineEnds) {fields : List (String × String)}
    (hnames : ∀ f ∈ fields, Plain f.1) :
    read ends (written fields) = fields ↔ ∀ f ∈ fields, Unbroken ends f.2 := by
  induction fields with
  | nil =>
    refine iff_of_true ?_ (by simp)
    cases ends <;> rfl
  | cons f rest ih =>
    have hname := hnames f (List.mem_cons_self ..)
    have hwritten : written (f :: rest) = line f ++ written rest := by
      simp [written]
    rw [hwritten, List.forall_mem_cons]
    by_cases hvalue : Unbroken ends f.2
    · rw [read_line hname hvalue, List.cons.injEq, ih fun f' hf' => hnames f' (.tail f hf')]
      exact ⟨fun h => ⟨hvalue, h.2⟩, fun h => ⟨rfl, h.2⟩⟩
    · obtain ⟨value, more, hread, hshort⟩ := read_broken hname hvalue (written rest)
      rw [hread]
      refine iff_of_false (fun heq => ?_) fun h => hvalue h.1
      rw [← (Prod.mk.inj (List.cons.inj heq).1).2] at hshort
      exact absurd hshort (lt_irrefl _)

end StableWheel.Text.Header
