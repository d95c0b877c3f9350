import Wxml.CompileError

/-!
# Reading a text from left to right

A cursor is the text still to be read and the position of its first character. Every reader
answers with a `Reading`: a value or an error, and in both cases the cursor where reading stopped,
so that a reader may be followed by another one after an error too.
-/

namespace Wxml

/-- The text still to be read, and where it starts. -/
structure Cursor where
  rest : List Char
  position : Position
  deriving DecidableEq, Repr, Inhabited

namespace Cursor

/-- The start of a text. -/
def ofString (s : String) : Cursor := ⟨s.toList, .start⟩

/-- The character some places ahead, if the text is that long. -/
def peek? (c : Cursor) (ahead : Nat) : Option Char := c.rest[ahead]?

/-- The cursor some characters further on, or at the end of a shorter text. -/
def advance (c : Cursor) (count : Nat) : Cursor :=
  ⟨c.rest.drop count, c.position.after (c.rest.take count)⟩

/-- The longest run of characters that pass a test. -/
def run (c : Cursor) (p : Char → Bool) : List Char := c.rest.takeWhile p

/-- The cursor behind the longest run of characters that pass a test. -/
def skip (c : Cursor) (p : Char → Bool) : Cursor := c.advance (c.run p).length

@[simp] theorem rest_advance (c : Cursor) (count : Nat) :
    (c.advance count).rest = c.rest.drop count := rfl

theorem length_advance (c : Cursor) (count : Nat) :
    (c.advance count).rest.length = c.rest.length - count := by simp

/-- Skipping leaves what `dropWhile` leaves, so that the library's lemmas about runs apply to a
cursor. -/
theorem rest_skip (c : Cursor) (p : Char → Bool) : (c.skip p).rest = c.rest.dropWhile p := by
  simp only [skip, run, rest_advance]
  induction c.rest with
  | nil => rfl
  | cons x xs ih =>
    cases h : p x
    · simp [h]
    · simp [h, ih]

/-- Skipping never adds to what is left. The run may be empty, so it need not take anything away
either. -/
theorem length_skip_le (c : Cursor) (p : Char → Bool) :
    (c.skip p).rest.length ≤ c.rest.length := by simp [skip]

end Cursor

/-- What a reader answers, and where it stopped. -/
inductive Reading (α : Type) where
  | done (value : α) (cursor : Cursor)
  | failed (error : CompileError) (cursor : Cursor)
  deriving Repr

namespace Reading

variable {α β : Type}

/-- Where reading stopped. -/
def cursor : Reading α → Cursor
  | done _ c => c
  | failed _ c => c

/-- The answer without the cursor. -/
def result : Reading α → Except CompileError α
  | done a _ => .ok a
  | failed e _ => .error e

/-- The answer with its value changed. -/
def map (f : α → β) : Reading α → Reading β
  | done a c => done (f a) c
  | failed e c => failed e c

/-- Continues from where a reader succeeded. -/
def andThen (r : Reading α) (next : α → Cursor → Reading β) : Reading β :=
  match r with
  | done a c => next a c
  | failed e c => failed e c

/-- Fails where the cursor stands. -/
def fail (cause : Cause) (c : Cursor) : Reading α := failed ⟨cause, some c.position⟩ c

/-- A changed answer is a value exactly when the answer was one, with the cursor where it was. -/
theorem map_eq_done {r : Reading α} {f : α → β} {b : β} {c : Cursor} :
    r.map f = done b c ↔ ∃ a, r = done a c ∧ f a = b := by
  cases r with
  | done a c' =>
    simp only [map, done.injEq]
    exact ⟨fun ⟨ha, hc⟩ => ⟨a, ⟨rfl, hc⟩, ha⟩, fun ⟨_, ⟨ha, hc⟩, hb⟩ => ⟨ha ▸ hb, hc⟩⟩
  | failed e c' => simp [map]

/-- Two readers in a row succeed together: the first has stopped somewhere, and the second has
succeeded from there. -/
theorem andThen_eq_done {r : Reading α} {next : α → Cursor → Reading β} {b : β} {c : Cursor} :
    r.andThen next = done b c ↔ ∃ a c', r = done a c' ∧ next a c' = done b c := by
  cases r with
  | done a c' =>
    simp only [andThen, done.injEq]
    exact ⟨fun h => ⟨a, c', ⟨rfl, rfl⟩, h⟩, fun ⟨_, _, ⟨ha, hc⟩, h⟩ => ha ▸ hc ▸ h⟩
  | failed e c' => simp [andThen]

/-- Changing the value of an answer does not touch its errors. -/
theorem map_eq_failed {r : Reading α} {f : α → β} {e : CompileError} {c : Cursor} :
    r.map f = failed e c ↔ r = failed e c := by
  cases r with
  | done a c' => simp [map]
  | failed e' c' => simp [map]

/-- Two readers in a row fail in one of two ways. An error of the first is the answer at once, and
nothing is read behind it. -/
theorem andThen_eq_failed {r : Reading α} {next : α → Cursor → Reading β} {e : CompileError}
    {c : Cursor} : r.andThen next = failed e c ↔
      r = failed e c ∨ ∃ a c', r = done a c' ∧ next a c' = failed e c := by
  cases r with
  | done a c' =>
    simp only [andThen, reduceCtorEq, false_or, done.injEq]
    exact ⟨fun h => ⟨a, c', ⟨rfl, rfl⟩, h⟩, fun ⟨_, _, ⟨ha, hc⟩, h⟩ => ha ▸ hc ▸ h⟩
  | failed e' c' => simp [andThen]

/-- A reader that fails by itself reports the place where it stands. Readers make errors in this way
only, so that none of them can report another place. -/
theorem fail_eq_failed {cause : Cause} {c c' : Cursor} {e : CompileError} :
    (fail cause c : Reading α) = failed e c' ↔ e = ⟨cause, some c.position⟩ ∧ c' = c := by
  rw [fail, failed.injEq, eq_comm, eq_comm (a := c)]

end Reading

end Wxml
