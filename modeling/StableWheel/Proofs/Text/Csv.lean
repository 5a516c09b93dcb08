/-! Reading comma-separated rows, one character at a time.

Commas separate fields. A field that starts with a quote runs to the next quote that is not
doubled. Outside quotes a line feed or a carriage return, alone or as a pair, ends a row.
`run_bare` and `run_quoted` say what the two kinds of field come to, and rows that have been read
stay (`run_rows`). -/
namespace StableWheel.Text.Csv

/-- Where the next character stands. -/
inductive Position where
  /-- At the start of a row. -/
  | row
  /-- At the start of a row, right behind a carriage return. -/
  | returned
  /-- At the start of a further field. -/
  | field
  /-- In a field without quotes. -/
  | bare
  /-- Between quotes. -/
  | quoted
  /-- Behind a quote that ends the field, unless another one follows. -/
  | closed
  deriving Repr, DecidableEq

/-- What has been read: whole rows, the fields of the next one, and the start of the next field. -/
structure Reader where
  rows : List (List String)
  fields : List String
  text : List Char
  position : Position
  deriving Repr, DecidableEq

namespace Reader

/-- Nothing has been read. -/
def fresh : Reader := ⟨[], [], [], .row⟩

/-- One more character of the field. -/
def take (r : Reader) (c : Char) (next : Position) : Reader :=
  { r with text := r.text ++ [c], position := next }

/-- The field is whole. -/
def endField (r : Reader) : Reader :=
  ⟨r.rows, r.fields ++ [String.ofList r.text], [], .field⟩

/-- The row is whole, its last field included. -/
def endRow (r : Reader) (next : Position) : Reader :=
  ⟨r.rows ++ [r.fields ++ [String.ofList r.text]], [], [], next⟩

/-- A character outside quotes. -/
def unquoted (r : Reader) (c : Char) : Reader :=
  if c = ',' then r.endField
  else if c = '\n' then r.endRow .row
  else if c = '\r' then r.endRow .returned
  else r.take c .bare

/-- A character at the start of a field. -/
def first (r : Reader) (c : Char) : Reader :=
  if c = '"' then { r with position := .quoted } else r.unquoted c

/-- One character. -/
def step (r : Reader) (c : Char) : Reader :=
  match r.position with
  | .row | .field => r.first c
  | .returned => if c = '\n' then { r with position := .row } else r.first c
  | .bare => r.unquoted c
  | .quoted => if c = '"' then { r with position := .closed } else r.take c .quoted
  | .closed => if c = '"' then r.take c .quoted else r.unquoted c

def run (r : Reader) (cs : List Char) : Reader := cs.foldl step r

/-- All rows; the last one need not have a line end. -/
def finish (r : Reader) : List (List String) :=
  match r.position with
  | .row | .returned => r.rows
  | _ => (r.endRow .row).rows

end Reader

/-- The rows of a text. -/
def read (s : String) : List (List String) := (Reader.fresh.run s.toList).finish

namespace Reader

theorem run_append (r : Reader) (cs ds : List Char) : r.run (cs ++ ds) = (r.run cs).run ds :=
  List.foldl_append

theorem run_cons (r : Reader) (c : Char) (cs : List Char) : r.run (c :: cs) = (r.step c).run cs :=
  rfl

/-! ### Ends of fields and rows -/

/-- Outside quotes, and not where a line feed might still belong to what came before it. -/
def Settled (p : Position) : Prop := p ≠ .quoted ∧ p ≠ .returned

/-- A character that is no quote is taken as it stands. -/
theorem step_settled {r : Reader} (h : Settled r.position) {c : Char} (hc : c ≠ '"') :
    r.step c = r.unquoted c := by
  obtain ⟨hquoted, hreturned⟩ := h
  unfold step first
  cases hp : r.position with
  | quoted => exact absurd hp hquoted
  | returned => exact absurd hp hreturned
  | _ => simp only [if_neg hc]

theorem step_comma {r : Reader} (h : Settled r.position) : r.step ',' = r.endField := by
  rw [step_settled h (by decide), unquoted, if_pos rfl]

theorem step_lineFeed {r : Reader} (h : Settled r.position) : r.step '\n' = r.endRow .row := by
  rw [step_settled h (by decide), unquoted, if_neg (by decide), if_pos rfl]

theorem step_return {r : Reader} (h : Settled r.position) : r.step '\r' = r.endRow .returned := by
  rw [step_settled h (by decide), unquoted, if_neg (by decide), if_neg (by decide), if_pos rfl]

/-! ### Fields -/

/-- A character that means nothing but itself, wherever it stands. -/
def Plain (c : Char) : Prop := c ≠ ',' ∧ c ≠ '"' ∧ c ≠ '\n' ∧ c ≠ '\r'

/-- Where a field without quotes may begin or go on. -/
def Bare (p : Position) : Prop := p = .row ∨ p = .field ∨ p = .bare

theorem Bare.settled {p : Position} (h : Bare p) : Settled p := by
  rcases h with rfl | rfl | rfl <;> exact ⟨by decide, by decide⟩

theorem step_plain {r : Reader} (h : Bare r.position) {c : Char} (hc : Plain c) :
    r.step c = r.take c .bare := by
  obtain ⟨hcomma, hquote, hfeed, hreturn⟩ := hc
  rw [step_settled h.settled hquote, unquoted, if_neg hcomma, if_neg hfeed, if_neg hreturn]

/-- A field without quotes is what it says. -/
theorem run_bare {r : Reader} (h : Bare r.position) {cs : List Char} (hcs : ∀ c ∈ cs, Plain c) :
    ∃ p, Bare p ∧ r.run cs = { r with text := r.text ++ cs, position := p } := by
  induction cs generalizing r with
  | nil => exact ⟨r.position, h, by rw [List.append_nil]; rfl⟩
  | cons c rest ih =>
    have hstep := step_plain h (hcs c (List.mem_cons_self ..))
    obtain ⟨p, hp, hrun⟩ := ih (r := r.step c) (by rw [hstep]; exact .inr (.inr rfl))
      (fun d hd => hcs d (List.mem_cons_of_mem c hd))
    refine ⟨p, hp, ?_⟩
    rw [run_cons, hrun, hstep]
    simp [take]

/-- What stands between quotes, each quote twice. -/
def doubled (cs : List Char) : List Char := cs.flatMap fun c => if c == '"' then [c, c] else [c]

theorem run_doubled {r : Reader} (h : r.position = .quoted) (cs : List Char) :
    r.run (doubled cs) = { r with text := r.text ++ cs } := by
  induction cs generalizing r with
  | nil => rw [List.append_nil]; rfl
  | cons c rest ih =>
    have htaken : r.run (if c == '"' then [c, c] else [c]) = r.take c .quoted := by
      by_cases hc : c = '"'
      · subst hc
        simp [run, step, h, take]
      · simp [run, step, h, hc]
    rw [doubled, List.flatMap_cons, run_append, htaken]
    refine (ih (r := r.take c .quoted) rfl).trans ?_
    simp [take, h]

/-- A field between quotes is what stands between them, with each quote once. -/
theorem run_quoted {r : Reader} (h : r.position = .row ∨ r.position = .field) (cs : List Char) :
    r.run ('"' :: doubled cs ++ ['"']) =
      { r with text := r.text ++ cs, position := .closed } := by
  have hopen : r.step '"' = { r with position := .quoted } := by
    rcases h with h | h <;> simp [step, first, h]
  rw [List.cons_append, run_cons, hopen, run_append, run_doubled rfl]
  rfl

/-! ### Rows that have been read -/

theorem step_rows (r : Reader) (c : Char) : r.rows <+: (r.step c).rows := by
  have hunquoted : r.rows <+: (r.unquoted c).rows := by
    unfold unquoted
    split
    · exact List.prefix_rfl
    · split
      · exact List.prefix_append ..
      · split
        · exact List.prefix_append ..
        · exact List.prefix_rfl
  have hfirst : r.rows <+: (r.first c).rows := by
    unfold first
    split
    · exact List.prefix_rfl
    · exact hunquoted
  unfold step
  split
  · exact hfirst
  · exact hfirst
  · split
    · exact List.prefix_rfl
    · exact hfirst
  · exact hunquoted
  · split <;> exact List.prefix_rfl
  · split
    · exact List.prefix_rfl
    · exact hunquoted

theorem run_rows (r : Reader) (cs : List Char) : r.rows <+: (r.run cs).rows := by
  induction cs generalizing r with
  | nil => exact List.prefix_rfl
  | cons c rest ih => exact (step_rows r c).trans (ih (r.step c))

theorem finish_rows (r : Reader) : r.rows <+: r.finish := by
  unfold finish
  split
  · exact List.prefix_rfl
  · exact List.prefix_rfl
  · exact List.prefix_append ..

end Reader
end StableWheel.Text.Csv
