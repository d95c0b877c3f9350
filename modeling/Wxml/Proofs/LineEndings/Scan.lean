import Wxml.Proofs.LineEndings.Text
import Wxml.Proofs.Scan

/-!
# Reading a text with other line ends

The same readers at the same place of the text with carriage returns (`Cursor.crlf`). No reader
tells a carriage return from a line feed: both are blanks, both may stand in values, texts and
comments, and neither stands in a name. So a reader passes the same characters, each line feed with
its carriage return.

**The laws** are one for each reader: its answer follows (`Reading.Follows`) the answer in the text
as it was. What was read differs only in line ends and offsets, and an error has the same line and
column and the same cause. Only a misplaced line feed is shown as what it is now, a carriage return.

**Not established**: where a reader stops that fails. `Follows` compares cursors only for values;
that an error stands at the same line and column is said of the error itself.
-/

namespace Wxml

open Wxml.Text

/-! ## Tokens and errors -/

/-- The token, without regard to its attributes, in the text with carriage returns. -/
def Token.crlfPlain (t : Token) : Token :=
  { t with
    value := withCrlf t.value, position := t.position.crlf, rawValue := t.rawValue.map withCrlf }

/-- The token in the text with carriage returns. Attributes have no attributes of their own. -/
def Token.crlf (t : Token) : Token :=
  { t.crlfPlain with attributes := t.attributes.map (·.map Token.crlfPlain) }

/-- A name holds no line end, so that only positions and attributes change in a token that has a
name. -/
theorem Token.crlf_named {kind : TokenKind} {name : String} (plain : '\n' ∉ name.toList)
    (start : Position) (attributes : Option (List Token)) :
    Token.crlf ⟨kind, name, start, none, attributes⟩ =
      ⟨kind, name, start.crlf, none, attributes.map (·.map Token.crlfPlain)⟩ := by
  rw [Token.crlf, Token.crlfPlain]
  simp only [withCrlf_eq_self plain, Option.map_none]

/-- The name of an attribute holds no line end, and its value may. -/
theorem Token.crlfPlain_ofAttribute {name : String} (plain : '\n' ∉ name.toList) (value : String)
    (start : Position) :
    Token.crlfPlain (.ofAttribute name value start) =
      .ofAttribute name (withCrlf value) start.crlf := by
  rw [Token.crlfPlain, Token.ofAttribute, Token.ofAttribute]
  simp only [withCrlf_eq_self plain, Option.map_some]

/-- **The same cause**, but that a misplaced character may be another one. -/
inductive Cause.Alike : Cause → Cause → Prop
  | same (cause : Cause) : Alike cause cause
  | unexpected (what what' : String) : Alike (.unexpected what) (.unexpected what')

/-- **The same error** in the text with carriage returns: at the same line and column. -/
structure CompileError.Alike (e e' : CompileError) : Prop where
  cause : e.cause.Alike e'.cause
  position : e'.position = e.position.map Position.crlf

/-! ## Cursors -/

namespace Cursor

/-- The same place of the text with carriage returns. -/
def crlf (c : Cursor) : Cursor := ⟨crlfs c.rest, c.position.crlf⟩

@[simp] theorem rest_crlf (c : Cursor) : c.crlf.rest = crlfs c.rest := rfl

/-- What was passed is passed with its line ends, and the positions go along. -/
theorem Passes.crlf {c c' : Cursor} {x : List Char} (h : c.Passes x c') :
    c.crlf.Passes (crlfs x) c'.crlf where
  rest := by rw [rest_crlf, h.rest, crlfs_append, rest_crlf]
  position := by
    show c'.position.crlf = _
    rw [h.position, Position.after_crlfs]
    rfl

/-- A cursor that advances over no line end advances by the same number of characters. -/
theorem advance_crlf {c : Cursor} {x rest : List Char} (h : c.rest = x ++ rest) (plain : '\n' ∉ x) :
    c.crlf.advance x.length = (c.advance x.length).crlf := by
  have hpasses := (passes_advance h).crlf
  rw [crlfs_eq_self plain] at hpasses
  exact hpasses.eq_advance.symm

/-- The next character is a given one in both texts or in neither, if it is no line break. -/
theorem peek?_crlf_eq_iff (c : Cursor) {d : Char} (inner : isLineBreak d = false) :
    c.crlf.peek? 0 = some d ↔ c.peek? 0 = some d := by
  rw [peek?, peek?, ← List.head?_eq_getElem?, ← List.head?_eq_getElem?]
  exact head?_crlfs_eq_some_iff inner

/-- One character further on, if it is no end of a line. -/
theorem advance_one_crlf {c : Cursor} {d : Char} (hpeek : c.peek? 0 = some d) (hfeed : d ≠ '\n') :
    c.crlf.advance 1 = (c.advance 1).crlf := by
  rw [peek?, ← List.head?_eq_getElem?] at hpeek
  obtain ⟨rest, hrest⟩ := List.head?_eq_some_iff.mp hpeek
  exact advance_crlf (x := [d]) hrest fun hmem => hfeed (List.mem_singleton.mp hmem).symm

section Runs

variable {p : Char → Bool} (alike : p '\r' = p '\n') (c : Cursor)

include alike

/-- A run that a line feed ends is ended by a carriage return, if the test does not tell them
apart. -/
theorem stops_crlfs {cs : List Char} (h : Stops p cs) : Stops p (crlfs cs) := by
  cases cs with
  | nil => exact h
  | cons x xs =>
    have hx := stops_cons.mp h
    by_cases hfeed : x = '\n'
    · subst hfeed
      exact stops_cons.mpr (alike.trans hx)
    · rw [crlfs_cons hfeed]
      exact stops_cons.mpr hx

theorem run_crlf : c.crlf.run p = crlfs (c.run p) :=
  (passes_skip c p).crlf.run_eq (forall_crlfs alike fun _ => of_mem_run)
    (stops_crlfs alike (stops_skip c p))

theorem skip_crlf : c.crlf.skip p = (c.skip p).crlf :=
  (passes_skip c p).crlf.skip_eq (forall_crlfs alike fun _ => of_mem_run)
    (stops_crlfs alike (stops_skip c p))

end Runs

/-- No line ends in a run of characters that a line feed is none of. -/
theorem lineFeed_not_mem_run {p : Char → Bool} (h : p '\n' = false) (c : Cursor) :
    '\n' ∉ c.run p := by
  intro hmem
  have := of_mem_run hmem
  rw [h] at this
  cases this

/-- A name that was read holds no line feed, as line feeds are no characters of names. -/
theorem lineFeed_not_mem_name {p : Char → Bool} (h : p '\n' = false) (c : Cursor) :
    '\n' ∉ (String.ofList (c.run p)).toList := by
  rw [String.toList_ofList]
  exact lineFeed_not_mem_run h c

theorem tagName_crlf (c : Cursor) : c.crlf.run isTagNameChar = c.run isTagNameChar := by
  rw [run_crlf rfl, crlfs_eq_self (lineFeed_not_mem_run rfl c)]

theorem attributeName_crlf (c : Cursor) :
    c.crlf.run isAttributeNameChar = c.run isAttributeNameChar := by
  rw [run_crlf rfl, crlfs_eq_self (lineFeed_not_mem_run rfl c)]

end Cursor

/-! ## Answers -/

/-- **An answer in the text with carriage returns**, beside the one in the text as it was. -/
inductive Reading.Follows {α : Type} (f : α → α) : Reading α → Reading α → Prop
  | done (a : α) (c : Cursor) : Follows f (.done a c) (.done (f a) c.crlf)
  | failed {e e' : CompileError} {c c' : Cursor} (alike : e.Alike e') :
      Follows f (.failed e c) (.failed e' c')

namespace Reading.Follows

variable {α β : Type} {f : α → α} {h : β → β} {r r' : Reading α}

/-- Two errors at the same place follow one another if their causes are alike. -/
theorem fail {cause cause' : Cause} (alike : cause.Alike cause') (c : Cursor) :
    Follows f (.fail cause c) (.fail cause' c.crlf) :=
  .failed ⟨alike, rfl⟩

/-- Following goes through a change of the value, if the change commutes with line ends. -/
theorem map {g g' : α → β} (first : r.Follows f r') (commutes : ∀ a, g' (f a) = h (g a)) :
    (r.map g).Follows h (r'.map g') := by
  cases first with
  | done a c =>
    show Follows h (.done (g a) c) (.done (g' (f a)) c.crlf)
    rw [commutes]
    exact .done (g a) c
  | failed alike => exact .failed alike

/-- Following goes through two readers in a row. The second is asked for at every cursor. -/
theorem andThen {next next' : α → Cursor → Reading β} (first : r.Follows f r')
    (second : ∀ a c, (next a c).Follows h (next' (f a) c.crlf)) :
    (r.andThen next).Follows h (r'.andThen next') := by
  cases first with
  | done a c => exact second a c
  | failed alike => exact .failed alike

theorem eq_done {a : α} {c : Cursor} (h : Follows f (.done a c) r') : r' = .done (f a) c.crlf := by
  cases h
  rfl

theorem exists_failed {e : CompileError} {c : Cursor} (h : Follows f (.failed e c) r') :
    ∃ e' c', r' = .failed e' c' ∧ e.Alike e' := by
  cases h with
  | failed alike => exact ⟨_, _, rfl, alike⟩

end Reading.Follows

namespace Cursor

open Reading (Follows)

/-- One character that is no line break is found in both texts or in neither, with the same
message. -/
theorem expect_crlf (c : Cursor) {char : Char} (inner : isLineBreak char = false) (what : String) :
    (c.expect char what).Follows id (c.crlf.expect char what) := by
  obtain ⟨hreturn, hfeed⟩ := ne_of_isLineBreak inner
  unfold expect
  rw [rest_crlf]
  cases hrest : c.rest with
  | nil => exact .fail (.same _) c
  | cons x xs =>
    by_cases hx : x = '\n'
    · subst hx
      dsimp only [crlfs_lineFeed]
      rw [if_neg (Ne.symm hfeed), if_neg (Ne.symm hreturn)]
      exact .fail (.same _) c
    · rw [crlfs_cons hx]
      dsimp only
      by_cases hchar : x = char
      · have hadvance : c.crlf.advance 1 = (c.advance 1).crlf :=
          advance_crlf (x := [x]) hrest fun hmem => hx (List.mem_singleton.mp hmem).symm
        rw [if_pos hchar, if_pos hchar, hadvance]
        exact .done () (c.advance 1)
      · rw [if_neg hchar, if_neg hchar]
        exact .fail (.same _) c

/-- A text is the same, with its line ends in it. They are lost later. -/
theorem readText_crlf (c : Cursor) : c.readText.Follows Token.crlf c.crlf.readText := by
  unfold readText
  rw [run_crlf rfl, skip_crlf rfl, ← withCrlf_ofList]
  exact .done _ _

/-! ## Attributes -/

/-- The value of an attribute may hold line ends, and holds the other ones then. Neither of them is
a quote, so it ends where it ended. -/
theorem readValue_crlf (c : Cursor) {quote : Char} (isQuote : quote = '"' ∨ quote = '\'')
    {name : String} (plain : '\n' ∉ name.toList) (start : Position) :
    (c.readValue quote name start).Follows Token.crlfPlain
      (c.crlf.readValue quote name start.crlf) := by
  have inner : isLineBreak quote = false := by rcases isQuote with rfl | rfl <;> rfl
  have alike : ('\r' != quote) = ('\n' != quote) := by rcases isQuote with rfl | rfl <;> rfl
  unfold readValue
  rw [run_crlf alike, skip_crlf alike, ← withCrlf_ofList]
  exact (expect_crlf _ inner _).map fun _ => (Token.crlfPlain_ofAttribute plain _ start).symm

/-- The ends of lines are no quotes. What stood where a quote should stand is still none, though it
may be a carriage return now. -/
theorem exists_crlfs_eq_cons {quote : Char} (notQuote : ¬ (quote = '"' ∨ quote = '\''))
    (rest : List Char) : ∃ other more, crlfs (quote :: rest) = other :: more ∧
      ¬ (other = '"' ∨ other = '\'') := by
  by_cases hfeed : quote = '\n'
  · subst hfeed
    exact ⟨'\r', '\n' :: crlfs rest, rfl, by decide⟩
  · exact ⟨quote, crlfs rest, crlfs_cons hfeed rest, notQuote⟩

/-- An attribute is the same in each of its cases. Only here and before a tag's name can the
character in a message differ: where a line feed stood, a carriage return is shown. -/
theorem readAttribute_crlf (c : Cursor) :
    c.readAttribute.Follows Token.crlfPlain c.crlf.readAttribute := by
  have hname := attributeName_crlf c
  have plain : '\n' ∉ (String.ofList (c.run isAttributeNameChar)).toList :=
    lineFeed_not_mem_name rfl c
  have hskip : c.crlf.skip isAttributeNameChar = (c.skip isAttributeNameChar).crlf :=
    skip_crlf rfl c
  have hrest' : (c.crlf.skip isAttributeNameChar).rest =
      crlfs (c.skip isAttributeNameChar).rest := by rw [hskip, rest_crlf]
  cases c.attributeShape with
  | unnamed unnamed =>
    rw [readAttribute_unnamed unnamed, readAttribute_unnamed (by rwa [hname])]
    exact .fail (.unexpected _ _) c
  | bare named alone =>
    have alone' : (c.crlf.skip isAttributeNameChar).rest.head? ≠ some '=' := by
      rwa [hrest', Ne, head?_crlfs_eq_some_iff rfl]
    have htoken := Token.crlfPlain_ofAttribute plain bareValue c.position
    rw [withCrlf_eq_self (by decide)] at htoken
    rw [readAttribute_bare named alone, readAttribute_bare (by rwa [hname]) alone', hname, hskip]
    exact htoken ▸ .done _ _
  | cut named hrest =>
    have hone : (c.skip isAttributeNameChar).crlf.advance 1 =
        ((c.skip isAttributeNameChar).advance 1).crlf :=
      advance_crlf (x := ['=']) hrest (by decide)
    rw [hrest] at hrest'
    rw [readAttribute_cut named hrest, readAttribute_cut (by rwa [hname]) hrest', hskip, hone]
    exact .fail (.same _) _
  | @quoted quote rest named hrest isQuote =>
    have hfeed : quote ≠ '\n' := by rcases isQuote with rfl | rfl <;> decide
    have htwo : (c.skip isAttributeNameChar).crlf.advance 2 =
        ((c.skip isAttributeNameChar).advance 2).crlf :=
      advance_crlf (x := ['=', quote]) hrest (by simpa using Ne.symm hfeed)
    rw [hrest, crlfs_cons (by decide), crlfs_cons hfeed] at hrest'
    rw [readAttribute_assigned named hrest, readAttribute_assigned (by rwa [hname]) hrest',
      if_pos isQuote, if_pos isQuote, hname, hskip, htwo]
    exact readValue_crlf _ isQuote plain c.position
  | @unquoted quote rest named hrest notQuote =>
    have hone : (c.skip isAttributeNameChar).crlf.advance 1 =
        ((c.skip isAttributeNameChar).advance 1).crlf :=
      advance_crlf (x := ['=']) hrest (by decide)
    obtain ⟨other, more, hcons, notQuote'⟩ := exists_crlfs_eq_cons notQuote rest
    rw [hrest, crlfs_cons (by decide), hcons] at hrest'
    rw [readAttribute_assigned named hrest, readAttribute_assigned (by rwa [hname]) hrest',
      if_neg notQuote, if_neg notQuote', hname, hskip, hone]
    exact .fail (.same _) _

/-- Where an attribute starts, one starts in the text with carriage returns. -/
theorem readAttributes_crlf_eq {c : Cursor} {x : Char} {xs : List Char} (hrest : c.rest = x :: xs)
    (hgt : x ≠ '>') (hslash : x ≠ '/') (dark : ¬ isBlank x = true) :
    c.crlf.readAttributes =
      c.crlf.readAttribute.andThen fun t c' => c'.readAttributes.map (t :: ·) := by
  have hfeed : x ≠ '\n' := by
    rintro rfl
    exact dark (by decide)
  have hrest' : c.crlf.rest = x :: crlfs xs := by rw [rest_crlf, hrest, crlfs_cons hfeed]
  rw [readAttributes_cons hrest', if_neg hgt, if_neg hslash, if_neg dark]

/-- The attributes of a tag are the same. A line feed between them is one blank, and two with its
carriage return, which makes one more round of the loop. -/
theorem readAttributes_crlf (c : Cursor) :
    c.readAttributes.Follows (List.map Token.crlfPlain) c.crlf.readAttributes := by
  fun_induction readAttributes c with
  | case1 c hrest =>
    rw [readAttributes_nil (by rw [rest_crlf, hrest]; rfl)]
    exact .fail (.same _) c
  | case2 c xs hrest =>
    rw [readAttributes_of_endsTag (.inl ⟨crlfs xs, by rw [rest_crlf, hrest]; rfl⟩)]
    exact .done [] c
  | case3 c xs closes hrest _ =>
    obtain ⟨rest, rfl⟩ := List.head?_eq_some_iff.mp closes
    rw [readAttributes_of_endsTag (.inr ⟨crlfs rest, by rw [rest_crlf, hrest]; rfl⟩)]
    exact .done [] c
  | case4 c xs other hrest _ =>
    have hrest' : c.crlf.rest = '/' :: crlfs xs := by rw [rest_crlf, hrest]; rfl
    rw [readAttributes_cons hrest', if_neg (by decide), if_pos rfl,
      if_neg (by rwa [head?_crlfs_eq_some_iff rfl])]
    exact .fail (.same _) c
  | case5 c x xs hrest _ _ blank ih =>
    have hpasses : c.crlf.Passes (crlfs [x]) (c.advance 1).crlf :=
      (passes_advance (x := [x]) hrest).crlf
    rw [readAttributes_of_gap (forall_crlfs (by decide) (by simpa using blank)) hpasses]
    exact ih
  | case6 c x xs hrest hgt hslash dark e c' hread =>
    have hfollows := readAttribute_crlf c
    rw [hread] at hfollows
    obtain ⟨e', c₁, hread', alike⟩ := hfollows.exists_failed
    rw [readAttributes_crlf_eq hrest hgt hslash dark, hread']
    exact .failed alike
  | case7 c x xs hrest hgt hslash dark t c' hread ih =>
    have hfollows := readAttribute_crlf c
    rw [hread] at hfollows
    rw [readAttributes_crlf_eq hrest hgt hslash dark, hfollows.eq_done]
    exact ih.map fun _ => rfl

/-! ## Tags and comments -/

/-- A closing tag is the same: line ends behind its name are blanks. -/
theorem readCloseTag_crlf (c : Cursor) (start : Position) :
    (c.readCloseTag start).Follows Token.crlf (c.crlf.readCloseTag start.crlf) := by
  have plain : '\n' ∉ (String.ofList (c.run isTagNameChar)).toList := lineFeed_not_mem_name rfl c
  unfold readCloseTag
  dsimp only
  rw [tagName_crlf, skip_crlf rfl, skip_crlf rfl]
  exact (expect_crlf _ rfl _).map fun _ =>
    (Token.crlf_named plain start none).symm

theorem readTagEnd_crlf (c : Cursor) {name : String} (plain : '\n' ∉ name.toList)
    (attributes : List Token) (start : Position) :
    (c.readTagEnd name attributes start).Follows Token.crlf
      (c.crlf.readTagEnd name (attributes.map Token.crlfPlain) start.crlf) := by
  have hpeek := peek?_crlf_eq_iff c (d := '/') rfl
  unfold readTagEnd
  by_cases slash : c.peek? 0 = some '/'
  · rw [if_pos slash, if_pos (hpeek.mpr slash), advance_one_crlf slash (by decide)]
    exact (expect_crlf _ rfl _).map fun _ =>
      (Token.crlf_named plain start (some attributes)).symm
  · rw [if_neg slash, if_neg (mt hpeek.mp slash)]
    exact (expect_crlf _ rfl _).map fun _ =>
      (Token.crlf_named plain start (some attributes)).symm

/-- An opening tag is the same, from its name to its end. -/
theorem readOpenTag_crlf (c : Cursor) (start : Position) :
    (c.readOpenTag start).Follows Token.crlf (c.crlf.readOpenTag start.crlf) := by
  have plain : '\n' ∉ (String.ofList (c.run isTagNameChar)).toList := lineFeed_not_mem_name rfl c
  unfold readOpenTag
  rw [tagName_crlf, rest_crlf]
  by_cases unnamed : c.run isTagNameChar = []
  · rw [if_pos unnamed, if_pos unnamed]
    by_cases hnil : c.rest = []
    · rw [if_pos hnil, if_pos (crlfs_eq_nil_iff.mpr hnil)]
      exact .fail (.same _) c
    · rw [if_neg hnil, if_neg (mt crlfs_eq_nil_iff.mp hnil)]
      exact .fail (.unexpected _ _) c
  · rw [if_neg unnamed, if_neg unnamed, skip_crlf rfl]
    exact (readAttributes_crlf _).andThen fun attributes c' =>
      readTagEnd_crlf c' plain attributes start

theorem readTag_crlf (c : Cursor) : c.readTag.Follows Token.crlf c.crlf.readTag := by
  unfold readTag
  refine (expect_crlf c rfl _).andThen fun _ c' => ?_
  have hpeek := peek?_crlf_eq_iff c' (d := '/') rfl
  by_cases slash : c'.peek? 0 = some '/'
  · rw [if_pos slash, if_pos (hpeek.mpr slash), advance_one_crlf slash (by decide)]
    exact readCloseTag_crlf _ c.position
  · rw [if_neg slash, if_neg (mt hpeek.mp slash)]
    exact readOpenTag_crlf c' c.position

/-- A comment ends where it ended: a carriage return neither makes a `-->` nor breaks one. -/
theorem commentBody?_crlfs (cs : List Char) :
    commentBody? (crlfs cs) = (commentBody? cs).map crlfs := by
  fun_induction commentBody? cs with
  | case1 => rfl
  | case2 rest => rfl
  | case3 x xs hfirst ih =>
    by_cases hfeed : x = '\n'
    · subst hfeed
      rw [crlfs_lineFeed, commentBody?, commentBody?, ih]
      · cases commentBody? xs <;> rfl
      · exact fun _ h => absurd h (by decide)
      · exact fun _ h => absurd h (by decide)
    · rw [crlfs_cons hfeed, commentBody?, ih]
      · cases commentBody? xs with
        | none => rfl
        | some body => exact congrArg some (crlfs_cons hfeed body).symm
      · intro tail hx htail
        obtain ⟨ys, rfl, hys⟩ := crlfs_eq_cons rfl htail
        obtain ⟨zs, rfl, -⟩ := crlfs_eq_cons rfl hys.symm
        exact hfirst zs hx rfl

/-- A comment is the same, with its line ends in it. A line end inside `-->` keeps it from being the
end, in both texts. -/
theorem readComment_crlf {c : Cursor} {rest : List Char} (hrest : c.rest = '<' :: '!' :: rest) :
    c.readComment.Follows Token.crlf c.crlf.readComment := by
  have htwo : c.crlf.advance 2 = (c.advance 2).crlf :=
    advance_crlf (x := ['<', '!']) hrest (by decide)
  unfold readComment
  dsimp only
  rw [htwo, skip_crlf rfl]
  generalize (c.advance 2).skip (· == '-') = inside
  rw [rest_crlf, commentBody?_crlfs]
  cases hbody : commentBody? inside.rest with
  | none =>
    have hend : inside.crlf.advance (crlfs inside.rest).length =
        (inside.advance inside.rest.length).crlf :=
      (passes_advance (List.append_nil _).symm).crlf.eq_advance.symm
    dsimp only [Option.map_none]
    rw [hend]
    exact .fail (.same _) _
  | some body =>
    obtain ⟨⟨tail, htail⟩, -⟩ := commentBody?_eq_some hbody
    have hshut : inside.rest = (body ++ ['-', '-', '>']) ++ tail := by
      rw [htail, List.append_assoc]
      rfl
    have hend := (passes_advance hshut).crlf.eq_advance
    rw [crlfs_append, List.length_append, List.length_append] at hend
    dsimp only [Option.map_some]
    rw [← withCrlf_ofList]
    exact hend ▸ .done _ _

/-! ## Tokens -/

/-- The next token is the same. Blanks before it may be line ends. -/
theorem readNext_crlf (c : Cursor) :
    c.readNext.Follows (Option.map Token.crlf) c.crlf.readNext := by
  have hskip : c.crlf.skip isBlank = (c.skip isBlank).crlf := skip_crlf rfl c
  cases hrest : (c.skip isBlank).rest with
  | nil =>
    rw [readNext_eq_none rfl hrest, readNext_eq_none hskip (by rw [rest_crlf, hrest]; rfl)]
    exact .done none _
  | cons x xs =>
    by_cases hlt : x = '<'
    · subst hlt
      have hrest' : (c.skip isBlank).crlf.rest = '<' :: crlfs xs := by
        rw [rest_crlf, hrest, crlfs_cons (by decide)]
      by_cases hcomment : xs.head? = some '!'
      · obtain ⟨rest, rfl⟩ := List.head?_eq_some_iff.mp hcomment
        rw [readNext_eq_readComment rfl hrest, readNext_eq_readComment hskip hrest']
        exact (readComment_crlf hrest).map fun _ => rfl
      · rw [readNext_eq_readTag rfl hrest hcomment, readNext_eq_readTag hskip hrest'
          (by rwa [Ne, head?_crlfs_eq_some_iff rfl])]
        exact (readTag_crlf _).map fun _ => rfl
    · have dark : isBlank x = false := stops_skip c isBlank x (by rw [hrest]; rfl)
      have hfeed : x ≠ '\n' := by
        rintro rfl
        exact absurd dark (by decide)
      have hrest' : (c.skip isBlank).crlf.rest = x :: crlfs xs := by
        rw [rest_crlf, hrest, crlfs_cons hfeed]
      rw [readNext_eq_readText rfl hrest hlt, readNext_eq_readText hskip hrest' hlt]
      exact (readText_crlf _).map fun _ => rfl

/-- All tokens are the same, and so is an error among them. The induction is on the text that is
left. -/
theorem readAll_crlf (c : Cursor) :
    c.readAll.Follows (List.map Token.crlf) c.crlf.readAll := by
  fun_induction readAll c with
  | case1 c e c' hnext =>
    have hfollows := readNext_crlf c
    rw [hnext] at hfollows
    obtain ⟨e', c₁, hnext', alike⟩ := hfollows.exists_failed
    rw [readAll_failed hnext']
    exact .failed alike
  | case2 c c' hnext =>
    have hfollows := readNext_crlf c
    rw [hnext] at hfollows
    rw [readAll_none hfollows.eq_done]
    exact .done [] c'
  | case3 c t c' hnext ih =>
    have hfollows := readNext_crlf c
    rw [hnext] at hfollows
    rw [readAll_some hfollows.eq_done]
    exact ih.map fun _ => rfl

end Cursor

/-- The start of the text with carriage returns, where none has been passed yet. -/
theorem Cursor.crlf_ofString (text : String) :
    (Cursor.ofString text).crlf = Cursor.ofString (withCrlf text) := by
  rw [Cursor.ofString, Cursor.ofString, toList_withCrlf]
  rfl

/-- **A result for the text with carriage returns**, beside the one for the text as it was. -/
inductive ResultFollows {α : Type} (f : α → α) :
    Except CompileError α → Except CompileError α → Prop
  | ok (a : α) : ResultFollows f (.ok a) (.ok (f a))
  | error {e e' : CompileError} (alike : e.Alike e') : ResultFollows f (.error e) (.error e')

namespace ResultFollows

variable {α : Type} {f : α → α} {result : Except CompileError α}

theorem eq_ok {a : α} (h : ResultFollows f (.ok a) result) : result = .ok (f a) := by
  cases h
  rfl

theorem exists_error {e : CompileError} (h : ResultFollows f (.error e) result) :
    ∃ e', result = .error e' ∧ e.Alike e' := by
  cases h with
  | error alike => exact ⟨_, rfl, alike⟩

end ResultFollows

/-- Without the cursors, answers that follow one another are results that do. -/
theorem Reading.Follows.result {α : Type} {f : α → α} {r r' : Reading α} (h : r.Follows f r') :
    ResultFollows f r.result r'.result := by
  cases h with
  | done a c => exact .ok a
  | failed alike => exact .error alike

/-- **The tokens of a text with other line ends** are those of the text, and so is its error.
Values, texts and comments have the other line ends, and positions the same lines and columns. -/
theorem Token.scan_withCrlf (text : String) :
    ResultFollows (List.map Token.crlf) (Token.scan text) (Token.scan (withCrlf text)) := by
  have hfollows := Cursor.readAll_crlf (Cursor.ofString text)
  rw [Cursor.crlf_ofString] at hfollows
  exact hfollows.result

end Wxml
