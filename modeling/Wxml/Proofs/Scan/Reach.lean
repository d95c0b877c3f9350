import Wxml.Proofs.Scan

/-!
# How far readers get

A reader may be called at any cursor, whatever stands there, and it may fail. In both cases it has
only moved forward, and an error stands where the reader stopped: nothing is taken back, and nothing
is reported elsewhere. `Reading.From` says this of an answer and of the cursor where the reader
started.

**The laws** are one for each reader, without a condition on the cursor, from the laws of the
combinators (`fail`, `map`, `andThen`, `behind`).

**Not established**: that the cause of an error is the right one for what stands there, and that a
reader that succeeds has passed anything at all. The loops need the latter, and ask for it of the
readers that they call.
-/

namespace Wxml

open Wxml.Text

namespace Reading

variable {α β : Type} {c c₁ : Cursor} {r : Reading α} {x : List Char}

/-- **The answer of a reader that started at a cursor.** What lies between the cursor and where the
reader stopped has been passed, and an error stands where the reader stopped. -/
structure From (c : Cursor) (r : Reading α) : Prop where
  passes : ∃ x, c.Passes x r.cursor
  reported : ∀ e c', r = .failed e c' → e.position = some c'.position

namespace From

/-- A value is an answer from where its passage starts. -/
theorem done (a : α) (h : c.Passes x c₁) : (Reading.done a c₁).From c := by
  refine ⟨⟨x, h⟩, ?_⟩
  intro e c' heq
  cases heq

/-- A reader that has come some way and fails there reports that place. -/
theorem fail (cause : Cause) (h : c.Passes x c₁) : (Reading.fail cause c₁ : Reading α).From c := by
  refine ⟨⟨x, h⟩, ?_⟩
  intro e c' heq
  obtain ⟨rfl, rfl⟩ := fail_eq_failed.mp heq
  rfl

/-- An error is passed on as it is, under another type. The readers hand on the errors of the
readers that they call in this way. -/
theorem failed {e : CompileError} (h : (Reading.failed e c₁ : Reading α).From c) :
    (Reading.failed e c₁ : Reading β).From c := by
  refine ⟨h.passes, ?_⟩
  intro e' c' heq
  cases heq
  exact h.reported e c₁ rfl

/-- Changing the value changes neither where the reader stopped nor what it reports. -/
theorem map (h : r.From c) (f : α → β) : (r.map f).From c := by
  cases r with
  | done a c' =>
    obtain ⟨x, passes⟩ := h.passes
    exact .done (f a) passes
  | failed e c' => exact h.failed

/-- A reader that was called further on has come from further back, and what it passed is both parts
together. -/
theorem behind (h : r.From c₁) (before : c.Passes x c₁) : r.From c := by
  obtain ⟨y, hy⟩ := h.passes
  exact ⟨⟨x ++ y, before.trans hy⟩, h.reported⟩

/-- A second reader, called where the first has stopped, starts at the first one's start as well. It
has to obey the law from every cursor. -/
theorem andThen (h : r.From c) {next : α → Cursor → Reading β}
    (hnext : ∀ a c', (next a c').From c') : (r.andThen next).From c := by
  cases r with
  | done a c' =>
    obtain ⟨x, passes⟩ := h.passes
    exact (hnext a c').behind passes
  | failed e c' => exact h.failed

end From

end Reading

namespace Cursor

open Reading (From)

/-- A cursor that advances stops at the end of the text at the latest. The characters that it passes
are those that were there. -/
theorem passes_take (c : Cursor) (count : Nat) :
    c.Passes (c.rest.take count) (c.advance count) where
  rest := (List.take_append_drop count c.rest).symm
  position := rfl

/-! ## Attributes -/

/-- The one reader that all others fail by: at the end of the text, or before another character. -/
theorem expect_from (c : Cursor) (char : Char) (what : String) : (c.expect char what).From c := by
  unfold expect
  cases c.rest with
  | nil => exact .fail _ (.refl c)
  | cons x xs =>
    dsimp only
    by_cases hx : x = char
    · rw [if_pos hx]
      exact .done () (passes_take c 1)
    · rw [if_neg hx]
      exact .fail _ (.refl c)

/-- A value is read forward, and a quote that is missing is reported where it was looked for: at the
end of the text. -/
theorem readValue_from (c : Cursor) (quote : Char) (name : String) (start : Position) :
    (c.readValue quote name start).From c := by
  unfold readValue
  exact ((expect_from _ _ _).behind (passes_skip c _)).map _

/-- An attribute is read forward in each of its five cases, and two of its errors stand behind the
name and not before it. -/
theorem readAttribute_from (c : Cursor) : c.readAttribute.From c := by
  have hname := passes_skip c isAttributeNameChar
  cases c.attributeShape with
  | unnamed unnamed =>
    rw [readAttribute_unnamed unnamed]
    exact .fail _ (.refl c)
  | bare named alone =>
    rw [readAttribute_bare named alone]
    exact .done _ hname
  | cut named hrest =>
    rw [readAttribute_cut named hrest]
    exact .fail _ (hname.trans (passes_take _ 1))
  | quoted named hrest isQuote =>
    rw [readAttribute_assigned named hrest, if_pos isQuote]
    exact (readValue_from _ _ _ _).behind (hname.trans (passes_take _ 2))
  | unquoted named hrest notQuote =>
    rw [readAttribute_assigned named hrest, if_neg notQuote]
    exact .fail _ (hname.trans (passes_take _ 1))

/-- The loop over the attributes. An error of one attribute is the loop's error, at its place. -/
theorem readAttributes_from (c : Cursor) : c.readAttributes.From c := by
  fun_induction readAttributes c with
  | case1 c => exact .fail _ (.refl c)
  | case2 c => exact .done [] (.refl c)
  | case3 c => exact .done [] (.refl c)
  | case4 c => exact .fail _ (.refl c)
  | case5 c x xs hrest hgt hslash blank ih => exact ih.behind (passes_take c 1)
  | case6 c x xs hrest hgt hslash hblank e c' hattr =>
    have hread := readAttribute_from c
    rw [hattr] at hread
    exact hread.failed
  | case7 c x xs hrest hgt hslash hblank t c' hattr ih =>
    obtain ⟨y, passes⟩ := (readAttribute_from c).passes
    rw [hattr] at passes
    exact (ih.map _).behind passes

/-! ## Tokens -/

/-- A text is read forward and never fails. It may be empty, where `<` stands at the cursor. -/
theorem readText_from (c : Cursor) : c.readText.From c := .done _ (passes_skip c _)

/-- A comment that does not end is reported at the end of the text, with everything up to there
passed. -/
theorem readComment_from (c : Cursor) : c.readComment.From c := by
  have hinside := (passes_take c 2).trans (passes_skip (c.advance 2) (· == '-'))
  unfold readComment
  dsimp only
  cases commentBody? ((c.advance 2).skip (· == '-')).rest with
  | none => exact .fail _ (hinside.trans (passes_take _ _))
  | some body => exact .done _ (hinside.trans (passes_take _ _))

/-- A closing tag without its `>` is reported behind its name and the blanks there. -/
theorem readCloseTag_from (c : Cursor) (start : Position) : (c.readCloseTag start).From c := by
  have hname := passes_skip c isTagNameChar
  have hgap := passes_skip (c.skip isTagNameChar) isBlank
  unfold readCloseTag
  exact ((expect_from _ _ _).behind (hname.trans hgap)).map _

/-- A tag that does not end is reported where its end was looked for. -/
theorem readTagEnd_from (c : Cursor) (name : String) (attributes : List Token) (start : Position) :
    (c.readTagEnd name attributes start).From c := by
  unfold readTagEnd
  by_cases slash : c.peek? 0 = some '/'
  · rw [if_pos slash]
    exact ((expect_from _ _ _).behind (passes_take c 1)).map _
  · rw [if_neg slash]
    exact (expect_from _ _ _).map _

/-- A tag without a name is reported at the place of the name, and any other error further on. -/
theorem readOpenTag_from (c : Cursor) (start : Position) : (c.readOpenTag start).From c := by
  unfold readOpenTag
  by_cases unnamed : c.run isTagNameChar = []
  · rw [if_pos unnamed]
    by_cases hnil : c.rest = []
    · rw [if_pos hnil]
      exact .fail _ (.refl c)
    · rw [if_neg hnil]
      exact .fail _ (.refl c)
  · rw [if_neg unnamed]
    refine ((readAttributes_from _).behind (passes_skip c _)).andThen ?_
    intro attributes c'
    exact readTagEnd_from c' _ attributes start

/-- A tag of any kind. Its own position is that of the `<`, but no error is reported there once the
`<` has been read. -/
theorem readTag_from (c : Cursor) : c.readTag.From c := by
  unfold readTag
  refine (expect_from c _ _).andThen ?_
  intro u c'
  by_cases slash : c'.peek? 0 = some '/'
  · rw [if_pos slash]
    exact (readCloseTag_from _ _).behind (passes_take c' 1)
  · rw [if_neg slash]
    exact readOpenTag_from c' _

/-- **The cases of the token reader**, by what stands behind the blanks. -/
inductive NextShape (c : Cursor) : Prop
  | nothing (hrest : (c.skip isBlank).rest = [])
  | comment {rest : List Char} (hrest : (c.skip isBlank).rest = '<' :: '!' :: rest)
  | tag {rest : List Char} (hrest : (c.skip isBlank).rest = '<' :: rest)
      (notComment : rest.head? ≠ some '!')
  | text {ch : Char} {rest : List Char} (hrest : (c.skip isBlank).rest = ch :: rest)
      (dark : ch ≠ '<')

/-- The four cases are all there are. -/
theorem nextShape (c : Cursor) : c.NextShape := by
  cases hrest : (c.skip isBlank).rest with
  | nil => exact .nothing hrest
  | cons x xs =>
    by_cases hx : x = '<'
    · subst hx
      by_cases hcomment : xs.head? = some '!'
      · obtain ⟨rest, rfl⟩ := List.head?_eq_some_iff.mp hcomment
        exact .comment hrest
      · exact .tag hrest hcomment
    · exact .text hrest hx

/-- The token reader, from the law of whichever reader it calls. -/
theorem readNext_from (c : Cursor) : c.readNext.From c := by
  have hgap := passes_skip c isBlank
  cases c.nextShape with
  | nothing hrest =>
    rw [readNext_eq_none rfl hrest]
    exact .done none hgap
  | comment hrest =>
    rw [readNext_eq_readComment rfl hrest]
    exact ((readComment_from _).map some).behind hgap
  | tag hrest notComment =>
    rw [readNext_eq_readTag rfl hrest notComment]
    exact ((readTag_from _).map some).behind hgap
  | text hrest dark =>
    rw [readNext_eq_readText rfl hrest dark]
    exact ((readText_from _).map some).behind hgap

/-- **The tokens of a text are read forward, and its error stands where reading stopped.** The
induction is on the text that is left. -/
theorem readAll_from (c : Cursor) : c.readAll.From c := by
  fun_induction readAll c with
  | case1 c e c' hnext =>
    have hread := readNext_from c
    rw [hnext] at hread
    exact hread.failed
  | case2 c c' hnext =>
    obtain ⟨x, passes⟩ := (readNext_from c).passes
    rw [hnext] at passes
    exact .done [] passes
  | case3 c t c' hnext ih =>
    obtain ⟨x, passes⟩ := (readNext_from c).passes
    rw [hnext] at passes
    exact (ih.map _).behind passes

end Cursor

end Wxml
