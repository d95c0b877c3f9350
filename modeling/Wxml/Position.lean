/-!
# Positions in a text

A position is a line, a column and an offset. Reading a text from its start gives positions that
count lines and columns from one and characters from zero (`Position.after`); only a line feed
starts a new line. Positions that come from elsewhere may hold any numbers.
-/

namespace Wxml

/-- A place in a text. -/
structure Position where
  line : Int
  column : Int
  offset : Int
  deriving DecidableEq, Repr, Inhabited

namespace Position

/-- The start of a text. -/
def start : Position := ⟨1, 1, 0⟩

/-- The position behind one character. -/
def step (p : Position) (c : Char) : Position :=
  if c = '\n' then ⟨p.line + 1, 1, p.offset + 1⟩ else ⟨p.line, p.column + 1, p.offset + 1⟩

/-- The position behind some characters. -/
def after (p : Position) (cs : List Char) : Position := cs.foldl step p

/-- The position as messages name it. -/
def label (p : Position) : String := toString p.line ++ ":" ++ toString p.column

@[simp] theorem after_nil (p : Position) : p.after [] = p := rfl

@[simp] theorem after_cons (p : Position) (c : Char) (cs : List Char) :
    p.after (c :: cs) = (p.step c).after cs := rfl

/-- Characters may be counted in two parts. Readers that call one another count theirs one by
one. -/
theorem after_append (p : Position) (cs ds : List Char) :
    p.after (cs ++ ds) = (p.after cs).after ds := List.foldl_append

theorem offset_step (p : Position) (c : Char) : (p.step c).offset = p.offset + 1 := by
  unfold step; split <;> rfl

/-- The offset counts characters, line feeds among them, whatever line and column do. -/
theorem offset_after (p : Position) (cs : List Char) :
    (p.after cs).offset = p.offset + cs.length := by
  induction cs generalizing p with
  | nil => simp
  | cons c cs ih => simp only [after_cons, ih, offset_step, List.length_cons]; omega

end Position

end Wxml
