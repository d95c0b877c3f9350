import Mathlib.Data.List.DropRight
import Wxml.Position

/-!
# Positions as counts

A position is kept character by character (`Position.step`). Here it is said without running
anything: the line counts the line feeds before a place, the column counts the characters behind the
last of them, and the offset counts all characters.

- **`Position.after_start`**: the position behind some characters, read from the start, is these
  three counts.
- **`Position.isIn_after`**: the position behind a beginning of a text has the counts of its own
  offset in that text.
- **`Position.after_behind`**: with other characters put in front of a text, every position moves by
  the counts of these characters. Columns move on the first line only.

**Not established**: what a place looks like in another encoding. Characters are counted, not bytes
or columns of a screen, and a carriage return or a tab is one character.
-/

namespace Wxml

/-- The characters behind the last line feed. -/
def lastLine (cs : List Char) : List Char := cs.rtakeWhile (· != '\n')

/-- A line feed starts a new line, of which nothing has been read. -/
theorem lastLine_lineFeed (cs : List Char) : lastLine (cs ++ ['\n']) = [] :=
  List.rtakeWhile_concat_neg _ _ _ (by decide)

/-- Any other character goes on with the line. These two are all that `after_start` needs of
lines. -/
theorem lastLine_concat {c : Char} (h : c ≠ '\n') (cs : List Char) :
    lastLine (cs ++ [c]) = lastLine cs ++ [c] :=
  List.rtakeWhile_concat_pos _ _ _ (bne_iff_ne.mpr h)

namespace Position

/-! ## Counting -/

/-- **A position read from the start is three counts**: of the line feeds so far, of the characters
behind the last of them, and of all characters. The induction takes the last character off, which is
the one that was counted last. -/
theorem after_start (cs : List Char) :
    start.after cs = ⟨1 + cs.count '\n', 1 + (lastLine cs).length, cs.length⟩ := by
  induction cs using List.reverseRecOn with
  | nil => rfl
  | append_singleton cs c ih =>
    rw [after_append, ih, after_cons, after_nil, step, List.count_append, List.length_append]
    by_cases hc : c = '\n'
    · subst hc
      rw [if_pos rfl, lastLine_lineFeed, List.count_singleton_self, List.length_singleton,
        List.length_nil]
      congr 1
    · have hcount : [c].count '\n' = 0 := List.count_eq_zero.mpr (by simpa using Ne.symm hc)
      rw [if_neg hc, lastLine_concat hc, hcount, List.length_append, List.length_singleton]
      congr 1

/-- **The position of a place in a text**: its offset lies in the text or at its end, and line and
column are counted in what stands before that offset. -/
structure IsIn (text : String) (p : Position) : Prop where
  nonneg : 0 ≤ p.offset
  within : p.offset ≤ text.length
  line : p.line = 1 + (text.toList.take p.offset.toNat).count '\n'
  column : p.column = 1 + (lastLine (text.toList.take p.offset.toNat)).length

/-- **The position behind a beginning of a text has the counts of its own offset.** So a position
can be checked against a text by its offset alone, without the reader that made it. -/
theorem isIn_after {text : String} {x rest : List Char} (h : text.toList = x ++ rest) :
    (start.after x).IsIn text := by
  have hlength : text.length = x.length + rest.length := by
    rw [← String.length_toList, h, List.length_append]
  have htake : text.toList.take x.length = x := by rw [h, List.take_left]
  rw [after_start]
  refine ⟨Int.natCast_nonneg _, ?_, ?_, ?_⟩
  · show (x.length : Int) ≤ text.length
    omega
  · show 1 + (x.count '\n' : Int) = 1 + (text.toList.take x.length).count '\n'
    rw [htake]
  · show 1 + ((lastLine x).length : Int) = 1 + (lastLine (text.toList.take x.length)).length
    rw [htake]

/-! ## Moving -/

/-- The position in a text that has some other characters in front. -/
def behind (p : Position) (before : List Char) : Position where
  line := p.line + before.count '\n'
  column := if p.line = 1 then p.column + (lastLine before).length else p.column
  offset := p.offset + before.length

/-- The start of the second text is the place where the first one ends. -/
theorem start_behind (before : List Char) : start.behind before = start.after before := by
  rw [after_start]
  show Position.mk _ _ (0 + _) = _
  rw [Int.zero_add]
  rfl

/-- A step further on is the same step behind other characters. A step into the second line leaves
the columns that move, so lines have to be counted from one. -/
theorem step_behind {p : Position} (h : 1 ≤ p.line) (c : Char) (before : List Char) :
    (p.step c).behind before = (p.behind before).step c := by
  by_cases hc : c = '\n'
  · have hline : ¬ p.line + 1 = 1 := by omega
    simp only [step, if_pos hc, behind, if_neg hline]
    congr 1 <;> omega
  · simp only [step, if_neg hc, behind]
    by_cases hline : p.line = 1
    · rw [if_pos hline, if_pos hline]
      congr 1 <;> omega
    · rw [if_neg hline, if_neg hline]
      congr 1
      omega

theorem line_le_step (p : Position) (c : Char) : p.line ≤ (p.step c).line := by
  by_cases hc : c = '\n'
  · have hline : (p.step c).line = p.line + 1 := by rw [step, if_pos hc]
    omega
  · have hline : (p.step c).line = p.line := by rw [step, if_neg hc]
    omega

/-- Reading on never leaves a line upwards, so lines that are counted from one stay so. -/
theorem line_le_after (p : Position) (cs : List Char) : p.line ≤ (p.after cs).line := by
  induction cs generalizing p with
  | nil => exact Int.le_refl _
  | cons c cs ih => exact Int.le_trans (line_le_step p c) (ih (p.step c))

/-- **Reading further commutes with other characters in front.** Lines have to be counted from one,
as they are for every position that is reached from the start of a text. -/
theorem after_behind {p : Position} (h : 1 ≤ p.line) (cs before : List Char) :
    (p.after cs).behind before = (p.behind before).after cs := by
  induction cs generalizing p with
  | nil => rfl
  | cons c cs ih =>
    have hstep : 1 ≤ (p.step c).line := Int.le_trans h (line_le_step p c)
    rw [after_cons, after_cons, ih hstep, step_behind h]

end Position

end Wxml
