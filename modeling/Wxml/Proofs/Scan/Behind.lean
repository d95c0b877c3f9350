import Wxml.Proofs.Positions
import Wxml.Proofs.Scan.Reach

/-!
# Reading behind other characters

The same text is left to read, but other characters have been read before it (`Cursor.behind`). No
reader looks at a position; positions are only kept and handed on. So a reader passes the same
characters and answers the same, with every position moved.

**The laws** are one equation for each reader: `(c.behind before).read… = c.read….behind …`. They
ask that lines are counted from one at the cursor, since columns move on the first line only
(`Position.step_behind`).

**Not established**: nothing is said of a cursor whose lines are not counted from one. A line feed
might lead from there to line one, whose columns are moved. No reader that was started at the start
of a text meets such a cursor.
-/

namespace Wxml

open Wxml.Text

/-- The token, with its attributes, in a text that has some other characters in front. -/
def Token.behind (before : List Char) (t : Token) : Token := t.mapPositions (·.behind before)

/-- The error in a text that has some other characters in front. -/
def CompileError.behind (before : List Char) (e : CompileError) : CompileError :=
  ⟨e.cause, e.position.map (·.behind before)⟩

/-- The positions inside a tag move with it: those of its attributes as much as its own. -/
theorem Token.behind_tag (before : List Char) (kind : TokenKind) (name : String) (start : Position)
    (attributes : List Token) :
    Token.behind before ⟨kind, name, start, none, some attributes⟩ =
      ⟨kind, name, start.behind before, none, some (attributes.map (Token.behind before))⟩ := by
  rw [Token.behind, Token.mapPositions, Token.mapPositionsAll_eq_map]
  rfl

namespace Cursor

/-- The same place, with some other characters read before. -/
def behind (c : Cursor) (before : List Char) : Cursor := ⟨c.rest, c.position.behind before⟩

@[simp] theorem rest_behind (c : Cursor) (before : List Char) :
    (c.behind before).rest = c.rest := rfl

/-- Lines that are counted from one stay so, since reading on never lowers a line. With this the
condition of the laws below is handed from each reader to the next. -/
theorem Passes.line_le {c c' : Cursor} {x : List Char} (h : c.Passes x c')
    (counted : 1 ≤ c.position.line) : 1 ≤ c'.position.line := by
  rw [h.position]
  exact Int.le_trans counted (Position.line_le_after _ x)

section

variable {c : Cursor} (counted : 1 ≤ c.position.line) (before : List Char)

include counted

/-- The base of all laws below: a cursor advances over the same characters, and the position that it
reaches is the old one, moved. -/
theorem advance_behind (count : Nat) :
    (c.behind before).advance count = (c.advance count).behind before := by
  show Cursor.mk _ ((c.position.behind before).after (c.rest.take count)) = _
  rw [← Position.after_behind counted]
  rfl

/-- A run of characters does not depend on what was read before it. -/
theorem skip_behind (p : Char → Bool) :
    (c.behind before).skip p = (c.skip p).behind before := advance_behind counted before _

end

end Cursor

/-! ## Answers -/

namespace Reading

variable {α β : Type} {f : α → α} {h : β → β} {r : Reading α} {before : List Char}

/-- The answer behind some other characters. `f` moves the positions in its value. -/
def behind (r : Reading α) (f : α → α) (before : List Char) : Reading α :=
  match r with
  | done a c => done (f a) (c.behind before)
  | failed e c => failed (e.behind before) (c.behind before)

/-- Moving positions commutes with changing a value, if it does so on the value. `g'` is `g` for the
moved value. -/
theorem map_behind {g g' : α → β} (commutes : ∀ a, g' (f a) = h (g a)) :
    (r.behind f before).map g' = (r.map g).behind h before := by
  cases r with
  | done a c =>
    show done (g' (f a)) _ = done (h (g a)) _
    rw [commutes]
  | failed e c => rfl

/-- Two readers in a row commute with moving, if the second does from where the first has stopped.
It is asked for there only, since the second law may need that lines are counted at that cursor. -/
theorem andThen_behind {next next' : α → Cursor → Reading β}
    (second : ∀ a c, r = .done a c → next' (f a) (c.behind before) = (next a c).behind h before) :
    (r.behind f before).andThen next' = (r.andThen next).behind h before := by
  cases r with
  | done a c => exact second a c rfl
  | failed e c => rfl

end Reading

namespace Cursor

section Readers

variable {c : Cursor} (counted : 1 ≤ c.position.line) (before : List Char)

include counted

/-- One character is read alike. The answer holds no position, so nothing in it moves. -/
theorem expect_behind (char : Char) (what : String) :
    (c.behind before).expect char what = (c.expect char what).behind id before := by
  unfold expect
  rw [rest_behind]
  cases c.rest with
  | nil => rfl
  | cons x xs =>
    dsimp only
    by_cases hx : x = char
    · rw [if_pos hx, if_pos hx, advance_behind counted]
      rfl
    · rw [if_neg hx, if_neg hx]
      rfl

/-- A text is the same behind other characters, and starts at the moved position. -/
theorem readText_behind :
    (c.behind before).readText = c.readText.behind (Token.behind before) before := by
  unfold readText
  rw [skip_behind counted]
  rfl

/-- A comment is the same behind other characters. One that does not end fails at the moved end of
the text. -/
theorem readComment_behind :
    (c.behind before).readComment = c.readComment.behind (Token.behind before) before := by
  have hstart := passes_take c 2
  have hinside := hstart.trans (passes_skip (c.advance 2) (· == '-'))
  unfold readComment
  dsimp only
  rw [advance_behind counted, skip_behind (hstart.line_le counted), rest_behind]
  cases commentBody? ((c.advance 2).skip (· == '-')).rest with
  | none =>
    dsimp only
    rw [advance_behind (hinside.line_le counted)]
    rfl
  | some body =>
    dsimp only
    rw [advance_behind (hinside.line_le counted)]
    rfl

/-! ## Attributes -/

/-- The value of an attribute is the same. The attribute's own start was read earlier and is moved
by the caller. -/
theorem readValue_behind (quote : Char) (name : String) (start : Position) :
    (c.behind before).readValue quote name (start.behind before) =
      (c.readValue quote name start).behind (Token.behind before) before := by
  have hvalue := passes_skip c (· != quote)
  unfold readValue
  rw [skip_behind counted, expect_behind (hvalue.line_le counted)]
  exact Reading.map_behind fun _ => rfl

/-- An attribute is the same, in each of the five cases of `AttributeShape`: named or not, alone,
cut off, quoted or unquoted. -/
theorem readAttribute_behind :
    (c.behind before).readAttribute = c.readAttribute.behind (Token.behind before) before := by
  have hname := passes_skip c isAttributeNameChar
  have hskip := skip_behind counted before isAttributeNameChar
  cases c.attributeShape with
  | unnamed unnamed =>
    rw [readAttribute_unnamed unnamed, readAttribute_unnamed (c := c.behind before) unnamed]
    rfl
  | bare named alone =>
    have alone' : ((c.behind before).skip isAttributeNameChar).rest.head? ≠ some '=' := alone
    rw [readAttribute_bare named alone, readAttribute_bare (c := c.behind before) named alone',
      hskip]
    rfl
  | cut named hrest =>
    have hrest' : ((c.behind before).skip isAttributeNameChar).rest = ['='] := hrest
    rw [readAttribute_cut named hrest, readAttribute_cut (c := c.behind before) named hrest', hskip,
      advance_behind (hname.line_le counted)]
    rfl
  | @quoted quote rest named hrest isQuote =>
    have hrest' : ((c.behind before).skip isAttributeNameChar).rest = '=' :: quote :: rest := hrest
    have hopen := (hname.trans (passes_take _ 2)).line_le counted
    rw [readAttribute_assigned named hrest,
      readAttribute_assigned (c := c.behind before) named hrest', if_pos isQuote, if_pos isQuote,
      hskip, advance_behind (hname.line_le counted)]
    exact readValue_behind hopen before quote _ c.position
  | @unquoted quote rest named hrest notQuote =>
    have hrest' : ((c.behind before).skip isAttributeNameChar).rest = '=' :: quote :: rest := hrest
    rw [readAttribute_assigned named hrest,
      readAttribute_assigned (c := c.behind before) named hrest', if_neg notQuote, if_neg notQuote,
      hskip, advance_behind (hname.line_le counted)]
    rfl

/-- The attributes of a tag are the same, each moved. The induction follows the loop, and the line
count goes along with the cursor (`Passes.line_le`). -/
theorem readAttributes_behind :
    (c.behind before).readAttributes =
      c.readAttributes.behind (List.map (Token.behind before)) before := by
  -- what stands at the front decides what the loop does, at both places
  have hfront : ∀ {c : Cursor} {x : Char} {xs : List Char}, c.rest = x :: xs →
      (c.behind before).rest = x :: xs := fun hrest => hrest
  fun_induction readAttributes c with
  | case1 c hrest =>
    rw [readAttributes_nil (c := c.behind before) hrest]
    rfl
  | case2 c xs hrest =>
    rw [readAttributes_of_endsTag (c := c.behind before) (.inl ⟨xs, hrest⟩)]
    rfl
  | case3 c xs closes hrest =>
    obtain ⟨rest, rfl⟩ := List.head?_eq_some_iff.mp closes
    rw [readAttributes_of_endsTag (c := c.behind before) (.inr ⟨rest, hrest⟩)]
    rfl
  | case4 c xs other hrest =>
    rw [readAttributes_cons (hfront hrest), if_neg (by decide), if_pos rfl, if_neg other]
    rfl
  | case5 c x xs hrest hgt hslash blank ih =>
    rw [readAttributes_cons (hfront hrest), if_neg hgt, if_neg hslash, if_pos blank,
      advance_behind counted]
    exact ih ((passes_take c 1).line_le counted)
  | case6 c x xs hrest hgt hslash dark e c' hattr =>
    rw [readAttributes_cons (hfront hrest), if_neg hgt, if_neg hslash, if_neg dark,
      readAttribute_behind counted, hattr]
    rfl
  | case7 c x xs hrest hgt hslash dark t c' hattr ih =>
    obtain ⟨y, passes⟩ := (readAttribute_from c).passes
    rw [hattr] at passes
    rw [readAttributes_cons (hfront hrest), if_neg hgt, if_neg hslash, if_neg dark,
      readAttribute_behind counted, hattr]
    show (c'.behind before).readAttributes.map (t.behind before :: ·) = _
    rw [ih (passes.line_le counted)]
    exact Reading.map_behind fun _ => rfl

/-! ## Tags -/

/-- A closing tag is the same. The position of its `<` was taken by the caller and is moved
there. -/
theorem readCloseTag_behind (start : Position) :
    (c.behind before).readCloseTag (start.behind before) =
      (c.readCloseTag start).behind (Token.behind before) before := by
  have hname := passes_skip c isTagNameChar
  have hgap := hname.trans (passes_skip (c.skip isTagNameChar) isBlank)
  unfold readCloseTag
  dsimp only
  rw [skip_behind counted, skip_behind (hname.line_le counted),
    expect_behind (hgap.line_le counted)]
  exact Reading.map_behind fun _ => rfl

/-- The end of a tag is the same, around attributes that have been moved already. -/
theorem readTagEnd_behind (name : String) (attributes : List Token) (start : Position) :
    (c.behind before).readTagEnd name (attributes.map (Token.behind before)) (start.behind before) =
      (c.readTagEnd name attributes start).behind (Token.behind before) before := by
  unfold readTagEnd
  show (if c.peek? 0 = some '/' then _ else _) = _
  by_cases slash : c.peek? 0 = some '/'
  · rw [if_pos slash, if_pos slash, advance_behind counted,
      expect_behind ((passes_take c 1).line_le counted)]
    exact Reading.map_behind fun _ => (Token.behind_tag ..).symm
  · rw [if_neg slash, if_neg slash, expect_behind counted]
    exact Reading.map_behind fun _ => (Token.behind_tag ..).symm

/-- An opening or self-closing tag is the same, from its name to its end. -/
theorem readOpenTag_behind (start : Position) :
    (c.behind before).readOpenTag (start.behind before) =
      (c.readOpenTag start).behind (Token.behind before) before := by
  have hname := passes_skip c isTagNameChar
  unfold readOpenTag
  show (if c.run isTagNameChar = [] then if c.rest = [] then _ else _ else _) = _
  by_cases unnamed : c.run isTagNameChar = []
  · rw [if_pos unnamed, if_pos unnamed]
    by_cases hnil : c.rest = []
    · rw [if_pos hnil, if_pos hnil]
      rfl
    · rw [if_neg hnil, if_neg hnil]
      rfl
  · rw [if_neg unnamed, if_neg unnamed, skip_behind counted,
      readAttributes_behind (hname.line_le counted)]
    apply Reading.andThen_behind
    intro attributes c' hread
    obtain ⟨y, passes⟩ := (readAttributes_from (c.skip isTagNameChar)).passes
    rw [hread] at passes
    exact readTagEnd_behind ((hname.trans passes).line_le counted) before _ attributes start

/-- A tag of any kind is the same: the slash that tells them apart is no position. -/
theorem readTag_behind :
    (c.behind before).readTag = c.readTag.behind (Token.behind before) before := by
  unfold readTag
  rw [expect_behind counted]
  apply Reading.andThen_behind
  intro u c' hread
  have hstart := (expect_done hread).line_le counted
  show (if c'.peek? 0 = some '/' then _ else _) = _
  by_cases slash : c'.peek? 0 = some '/'
  · rw [if_pos slash, if_pos slash, advance_behind hstart]
    exact readCloseTag_behind ((passes_take c' 1).line_le hstart) before c.position
  · rw [if_neg slash, if_neg slash]
    exact readOpenTag_behind hstart before c.position

/-! ## Tokens -/

/-- The next token is the same, moved. What stands behind the blanks selects the reader, in both
texts alike. -/
theorem readNext_behind :
    (c.behind before).readNext = c.readNext.behind (Option.map (Token.behind before)) before := by
  have hskip := skip_behind counted before isBlank
  have hgap := (passes_skip c isBlank).line_le counted
  cases c.nextShape with
  | nothing hrest =>
    rw [readNext_eq_none rfl hrest, readNext_eq_none hskip hrest]
    rfl
  | comment hrest =>
    rw [readNext_eq_readComment rfl hrest, readNext_eq_readComment hskip hrest,
      readComment_behind hgap]
    exact Reading.map_behind fun _ => rfl
  | tag hrest notComment =>
    rw [readNext_eq_readTag rfl hrest notComment, readNext_eq_readTag hskip hrest notComment,
      readTag_behind hgap]
    exact Reading.map_behind fun _ => rfl
  | text hrest dark =>
    rw [readNext_eq_readText rfl hrest dark, readNext_eq_readText hskip hrest dark,
      readText_behind hgap]
    exact Reading.map_behind fun _ => rfl

/-- **The tokens of a text behind other characters are its tokens, moved.** An error is the same
error, moved. The induction is on the text that is left. -/
theorem readAll_behind :
    (c.behind before).readAll = c.readAll.behind (List.map (Token.behind before)) before := by
  fun_induction readAll c with
  | case1 c e c' hnext =>
    apply readAll_failed
    rw [readNext_behind counted, hnext]
    rfl
  | case2 c c' hnext =>
    apply readAll_none
    rw [readNext_behind counted, hnext]
    rfl
  | case3 c t c' hnext ih =>
    obtain ⟨x, passes⟩ := (readNext_from c).passes
    rw [hnext] at passes
    have hnext' : (c.behind before).readNext =
        .done (some (t.behind before)) (c'.behind before) := by
      rw [readNext_behind counted, hnext]
      rfl
    rw [readAll_some hnext', ih (passes.line_le counted)]
    exact Reading.map_behind fun _ => rfl

end Readers

end Cursor

end Wxml
