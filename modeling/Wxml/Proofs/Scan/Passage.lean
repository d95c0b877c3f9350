import Mathlib.Data.List.TakeWhile
import Wxml.Token.Scan

/-!
# What lies between two cursors

Readers move a cursor. `Cursor.Passes` says what they passed: the characters between where they
started and where they stopped. It determines the second cursor, position included
(`Cursor.Passes.eq`), and it can be joined and split like the characters themselves.

A run of characters is as long as it can be. `Stops` is the reason why it ends where it ends: what
follows does not start with a character of the run.
-/

namespace Wxml

/-- No character that passes the test stands at the front. -/
def Stops (p : Char → Bool) (cs : List Char) : Prop := ∀ c, cs.head? = some c → p c = false

theorem stops_nil (p : Char → Bool) : Stops p [] := fun _ h => nomatch h

/-- Before some text, stopping is a test of one character only. -/
theorem stops_cons {p : Char → Bool} {c : Char} {cs : List Char} :
    Stops p (c :: cs) ↔ p c = false := by
  simp [Stops]

/-- What a run leaves does not start with a character of it: the run was as long as it can be.
Whoever skips a run therefore knows what does not come next. -/
theorem stops_dropWhile (p : Char → Bool) (cs : List Char) : Stops p (cs.dropWhile p) := by
  intro c h
  have hnot := List.head?_dropWhile_not p cs
  rw [h] at hnot
  simpa using hnot

/-- A run of characters that pass the test goes on to where the test stops. Spellings are read by
this: the characters of a name are passed as a whole, and no more. -/
theorem Stops.takeWhile_append {p : Char → Bool} {x cs : List Char} (stops : Stops p cs)
    (all : ∀ c ∈ x, p c = true) : (x ++ cs).takeWhile p = x := by
  have hnil : cs.takeWhile p = [] := by
    cases cs with
    | nil => rfl
    | cons c cs =>
      rw [stops_cons] at stops
      rw [List.takeWhile_cons_of_neg (by simp [stops])]
  rw [List.takeWhile_append_of_pos all, hnil, List.append_nil]

/-- The other half of `Stops.takeWhile_append`: what is left behind the run. -/
theorem Stops.dropWhile_append {p : Char → Bool} {x cs : List Char} (stops : Stops p cs)
    (all : ∀ c ∈ x, p c = true) : (x ++ cs).dropWhile p = cs := by
  have hparts := List.takeWhile_append_dropWhile (p := p) (l := x ++ cs)
  rw [stops.takeWhile_append all] at hparts
  exact List.append_cancel_left hparts

namespace Cursor

/-- The second cursor stands behind `x`, which is the next to be read from the first. -/
structure Passes (c : Cursor) (x : List Char) (c' : Cursor) : Prop where
  rest : c.rest = x ++ c'.rest
  position : c'.position = c.position.after x

theorem Passes.refl (c : Cursor) : c.Passes [] c := ⟨rfl, rfl⟩

/-- Passages follow one another like the characters that they pass. -/
theorem Passes.trans {c c' c'' : Cursor} {x y : List Char} (first : c.Passes x c')
    (second : c'.Passes y c'') : c.Passes (x ++ y) c'' where
  rest := by rw [first.rest, second.rest, List.append_assoc]
  position := by rw [second.position, first.position, Position.after_append]

/-- A passage can be stopped at any place. The cursor in between is not known beforehand, but it is
determined (`Passes.eq`), so a spelling in several parts can be read part by part. -/
theorem Passes.split {c c'' : Cursor} {x y : List Char} (h : c.Passes (x ++ y) c'') :
    ∃ c', c.Passes x c' ∧ c'.Passes y c'' := by
  refine ⟨⟨y ++ c''.rest, c.position.after x⟩, ⟨?_, rfl⟩, ⟨rfl, ?_⟩⟩
  · rw [h.rest, List.append_assoc]
  · rw [h.position, Position.after_append]

/-- Where a passage ends is known from where it starts and what is passed, the position included.
Two readers that pass the same characters therefore stop at the same cursor. -/
theorem Passes.eq {c c₁ c₂ : Cursor} {x : List Char} (h₁ : c.Passes x c₁) (h₂ : c.Passes x c₂) :
    c₁ = c₂ := by
  obtain ⟨r₁, p₁⟩ := c₁
  obtain ⟨r₂, p₂⟩ := c₂
  have hrest : r₁ = r₂ := List.append_cancel_left (h₁.rest.symm.trans h₂.rest)
  have hposition : p₁ = p₂ := h₁.position.trans h₂.position.symm
  rw [hrest, hposition]

/-- What was passed is missing from what is left, character by character. -/
theorem Passes.length_eq {c c' : Cursor} {x : List Char} (h : c.Passes x c') :
    c.rest.length = x.length + c'.rest.length := by
  rw [h.rest, List.length_append]

/-- The offsets of two cursors differ by the number of characters between them. -/
theorem Passes.offset_eq {c c' : Cursor} {x : List Char} (h : c.Passes x c') :
    c'.position.offset = c.position.offset + x.length := by
  rw [h.position, Position.offset_after]

/-- A reader that has passed something stands further on. This turns progress of the readers into
progress of the positions that they report. -/
theorem Passes.offset_lt {c c' : Cursor} {x : List Char} (h : c.Passes x c') (something : x ≠ []) :
    c.position.offset < c'.position.offset := by
  have hpos := List.length_pos_iff.mpr something
  have hoffset := h.offset_eq
  omega

theorem Passes.ne_nil {c c' : Cursor} {x : List Char} (h : c.Passes x c')
    (shorter : c'.rest.length < c.rest.length) : x ≠ [] := by
  rintro rfl
  have hlength := h.length_eq
  rw [List.length_nil] at hlength
  omega

/-- Advancing passes the characters that stand there. It asks for them to be named, since a cursor
that is to advance too far stops at the end of the text. -/
theorem passes_advance {c : Cursor} {x y : List Char} (h : c.rest = x ++ y) :
    c.Passes x (c.advance x.length) where
  rest := by rw [rest_advance, h, List.drop_left]
  position := by
    show c.position.after (c.rest.take x.length) = c.position.after x
    rw [h, List.take_left]

/-- The end of a passage needs no searching for: it is the cursor advanced by what was passed. -/
theorem Passes.eq_advance {c c' : Cursor} {x : List Char} (h : c.Passes x c') :
    c' = c.advance x.length :=
  h.eq (passes_advance h.rest)

theorem passes_skip (c : Cursor) (p : Char → Bool) : c.Passes (c.run p) (c.skip p) :=
  passes_advance (List.takeWhile_append_dropWhile (p := p)).symm

/-- A run ends where its test fails, at a cursor too. -/
theorem stops_skip (c : Cursor) (p : Char → Bool) : Stops p (c.skip p).rest := by
  rw [rest_skip]
  exact stops_dropWhile p c.rest

theorem of_mem_run {c : Cursor} {p : Char → Bool} {x : Char} (h : x ∈ c.run p) : p x = true :=
  List.mem_takeWhile_imp h

/-- A run that cannot go on is the longest one. The two conditions are those that a spelling gives:
which characters a part is made of, and that what follows cannot belong to it. -/
theorem Passes.run_eq {c c' : Cursor} {p : Char → Bool} {x : List Char} (h : c.Passes x c')
    (all : ∀ ch ∈ x, p ch = true) (stops : Stops p c'.rest) : c.run p = x := by
  rw [run, h.rest, stops.takeWhile_append all]

theorem Passes.skip_eq {c c' : Cursor} {p : Char → Bool} {x : List Char} (h : c.Passes x c')
    (all : ∀ ch ∈ x, p ch = true) (stops : Stops p c'.rest) : c.skip p = c' := by
  have hskip := passes_skip c p
  rw [h.run_eq all stops] at hskip
  exact hskip.eq h

/-- A character that was expected and found has been passed, and nothing else. All characters that
end a tag or a value are read in this way. -/
theorem expect_done {c c' : Cursor} {ch : Char} {what : String} {u : Unit}
    (h : c.expect ch what = .done u c') : c.Passes [ch] c' := by
  unfold expect at h
  split at h
  · simp [Reading.fail] at h
  · next x xs hrest =>
    split at h
    · next hx =>
      injection h with _ hc
      subst hx hc
      exact passes_advance (x := [x]) hrest
    · simp [Reading.fail] at h

/-- The character that is expected is read, whatever the message for another one would have been. -/
theorem expect_of_passes {c c' : Cursor} {ch : Char} (what : String) (h : c.Passes [ch] c') :
    c.expect ch what = .done () c' := by
  unfold expect
  rw [h.rest, h.eq_advance]
  simp

end Cursor

end Wxml
