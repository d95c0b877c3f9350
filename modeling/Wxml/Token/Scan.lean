import Wxml.Cursor
import Wxml.Text.Blank
import Wxml.Token

/-!
# From text to tokens

Blanks between tokens are skipped. A text runs up to the next `<`. A comment starts with `<!`, may
have any number of dashes there, and ends at the first `-->`. A closing tag is `</name>`; an
opening tag holds a name and attributes and ends in `>`, a self-closing one in `/>`.

Each reader can be called at any cursor and says what it finds there. The loops end because every
round leaves less text to read: **`readAttribute_shorter`** for the attributes of a tag and
**`readNext_shorter`** for the tokens of a text.
-/

namespace Wxml

open Wxml.Text

/-- The value of an attribute that is written without one. -/
def bareValue : String := "\x7b\x7btrue\x7d\x7d"

/-- The characters of a tag's name. -/
def isTagNameChar (c : Char) : Bool := c != '/' && c != '>' && !isBlank c

/-- The characters of an attribute's name. -/
def isAttributeNameChar (c : Char) : Bool := c != '=' && c != '>' && c != '/' && !isBlank c

/-- What stands before the first `-->`. -/
def commentBody? : List Char → Option (List Char)
  | [] => none
  | '-' :: '-' :: '>' :: _ => some []
  | x :: xs => (commentBody? xs).map (x :: ·)

namespace Cursor

/-- What stands at a cursor, as messages show it. -/
def shown (c : Cursor) : String := quotedOption ((c.peek? 0).map String.singleton)

/-- Reads one given character. -/
def expect (c : Cursor) (char : Char) (what : String) : Reading Unit :=
  match c.rest with
  | [] => .fail .endOfInput c
  | x :: _ => if x = char then .done () (c.advance 1) else .fail (.expected what) c

/-- Reads a text, up to the next tag or comment. -/
def readText (c : Cursor) : Reading Token :=
  .done { kind := .text, value := String.ofList (c.run (· != '<')), position := c.position }
    (c.skip (· != '<'))

/-- Reads a comment. The two characters that start it are not looked at. -/
def readComment (c : Cursor) : Reading Token :=
  let inside := (c.advance 2).skip (· == '-')
  match commentBody? inside.rest with
  | none => .fail .endOfInput (inside.advance inside.rest.length)
  | some body =>
    .done { kind := .comment, value := String.ofList body, position := c.position }
      (inside.advance (body.length + 3))

/-- Reads the value of an attribute whose opening quote has been read. -/
def readValue (c : Cursor) (quote : Char) (name : String) (start : Position) : Reading Token :=
  ((c.skip (· != quote)).expect quote
      ("closing " ++ String.singleton quote ++ " for attribute '" ++ name ++ "'")).map fun _ =>
    .ofAttribute name (String.ofList (c.run (· != quote))) start

/-- Reads one attribute: a name alone, or a name, `=` and a value between quotes. -/
def readAttribute (c : Cursor) : Reading Token :=
  let name := String.ofList (c.run isAttributeNameChar)
  let behind := c.skip isAttributeNameChar
  if c.run isAttributeNameChar = [] then
    .fail (.unexpected (c.shown ++ " where an attribute name was expected")) c
  else
    match behind.rest with
    | '=' :: [] => .fail .endOfInput (behind.advance 1)
    | '=' :: quote :: _ =>
      if quote = '"' ∨ quote = '\'' then (behind.advance 2).readValue quote name c.position
      else
        .fail (.expected ("quote to open the value of attribute '" ++ name ++ "'"))
          (behind.advance 1)
    | _ => .done (.ofAttribute name bareValue c.position) behind

theorem expect_shorter {c c' : Cursor} {char : Char} {what : String} {u : Unit}
    (h : c.expect char what = .done u c') : c'.rest.length < c.rest.length := by
  unfold expect at h
  split at h
  · simp [Reading.fail] at h
  · next x xs hrest =>
    split at h
    · injection h with _ h
      subst h
      simp [hrest]
    · simp [Reading.fail] at h

/-- A run that is not empty leaves less to read. The loops below end because of it. -/
theorem skip_shorter {c : Cursor} {p : Char → Bool} (h : c.run p ≠ []) :
    (c.skip p).rest.length < c.rest.length := by
  unfold run at h
  unfold skip run
  rw [length_advance]
  have hpos := List.length_pos_iff.mpr h
  have hle := (List.takeWhile_prefix p (l := c.rest)).length_le
  omega

theorem readValue_shorter {c c' : Cursor} {quote : Char} {name : String} {start : Position}
    {t : Token} (h : c.readValue quote name start = .done t c') :
    c'.rest.length < c.rest.length := by
  obtain ⟨u, hclose, _⟩ := Reading.map_eq_done.mp h
  exact Nat.lt_of_lt_of_le (expect_shorter hclose) (length_skip_le c _)

/-- An attribute takes at least one character. -/
theorem readAttribute_shorter {c c' : Cursor} {t : Token} (h : c.readAttribute = .done t c') :
    c'.rest.length < c.rest.length := by
  unfold readAttribute at h
  simp only at h
  split at h
  · simp [Reading.fail] at h
  · next hrun =>
    have hskip := skip_shorter hrun
    split at h
    · simp [Reading.fail] at h
    · split at h
      · have hvalue := readValue_shorter h
        rw [length_advance] at hvalue
        omega
      · simp [Reading.fail] at h
    · injection h with _ h
      subst h
      exact hskip

/-- Reads the attributes of a tag, up to the `>` or `/>` that ends it. -/
def readAttributes (c : Cursor) : Reading (List Token) :=
  match _hrest : c.rest with
  | [] => .fail .endOfInput c
  | x :: xs =>
    if x = '>' then .done [] c
    else if x = '/' then
      if xs.head? = some '>' then .done [] c else .fail (.expected "'>' after '/'") c
    else if isBlank x then readAttributes (c.advance 1)
    else
      match _h : c.readAttribute with
      | .failed e c' => .failed e c'
      | .done t c' => c'.readAttributes.map (t :: ·)
termination_by c.rest.length
decreasing_by
  · simp [_hrest]
  · exact _hrest ▸ readAttribute_shorter _h

/-- Reads a closing tag whose `</` has been read. -/
def readCloseTag (c : Cursor) (start : Position) : Reading Token :=
  let name := String.ofList (c.run isTagNameChar)
  (((c.skip isTagNameChar).skip isBlank).expect '>' ("'>' to close tag </" ++ name ++ ">")).map
    fun _ => { kind := .closeTag, value := name, position := start }

/-- Reads the end of an opening or self-closing tag, behind its attributes. -/
def readTagEnd (c : Cursor) (name : String) (attributes : List Token) (start : Position) :
    Reading Token :=
  if c.peek? 0 = some '/' then
    ((c.advance 1).expect '>' ("'>' to close tag <" ++ name ++ "/>")).map fun _ =>
      .ofTag .selfCloseTag name attributes start
  else
    (c.expect '>' ("'>' to close tag <" ++ name ++ ">")).map fun _ =>
      .ofTag .openTag name attributes start

/-- Reads an opening or self-closing tag whose `<` has been read. -/
def readOpenTag (c : Cursor) (start : Position) : Reading Token :=
  if c.run isTagNameChar = [] then
    if c.rest = [] then .fail .endOfInput c
    else .fail (.unexpected (c.shown ++ " where a tag name was expected")) c
  else
    (c.skip isTagNameChar).readAttributes.andThen fun attributes c' =>
      c'.readTagEnd (String.ofList (c.run isTagNameChar)) attributes start

/-- Reads a tag: closing, opening or self-closing. -/
def readTag (c : Cursor) : Reading Token :=
  (c.expect '<' "'<'").andThen fun _ c' =>
    if c'.peek? 0 = some '/' then (c'.advance 1).readCloseTag c.position
    else c'.readOpenTag c.position

/-- Reads the next token, or nothing when only blanks are left. -/
def readNext (c : Cursor) : Reading (Option Token) :=
  let c' := c.skip isBlank
  match c'.rest with
  | [] => .done none c'
  | '<' :: '!' :: _ => c'.readComment.map some
  | '<' :: _ => c'.readTag.map some
  | _ :: _ => c'.readText.map some

theorem readAttributes_le {c c' : Cursor} {ts : List Token} (h : c.readAttributes = .done ts c') :
    c'.rest.length ≤ c.rest.length := by
  fun_induction readAttributes c generalizing ts with
  | case1 => simp [Reading.fail] at h
  | case2 => injection h with _ h; simp [h]
  | case3 => injection h with _ h; simp [h]
  | case4 => simp [Reading.fail] at h
  | case5 c x xs hrest _ _ _ ih =>
    have := ih h
    rw [length_advance] at this
    omega
  | case6 => simp at h
  | case7 c x xs hrest _ _ _ t c'' hattr ih =>
    obtain ⟨ts', hts, _⟩ := Reading.map_eq_done.mp h
    have h₁ := ih hts
    have h₂ := readAttribute_shorter hattr
    omega

/-- A tag takes its `<` at least, whatever else of it may be empty. -/
theorem readTag_shorter {c c' : Cursor} {t : Token} (h : c.readTag = .done t c') :
    c'.rest.length < c.rest.length := by
  obtain ⟨u, c₁, hopen, h⟩ := Reading.andThen_eq_done.mp h
  have hopen := expect_shorter hopen
  split at h
  · obtain ⟨u, hclose, _⟩ := Reading.map_eq_done.mp h
    have h₁ := expect_shorter hclose
    have h₂ := length_skip_le ((c₁.advance 1).skip isTagNameChar) isBlank
    have h₃ := length_skip_le (c₁.advance 1) isTagNameChar
    have h₄ := length_advance c₁ 1
    omega
  · unfold readOpenTag at h
    split at h
    · split at h <;> simp [Reading.fail] at h
    · obtain ⟨ts, c₂, hattrs, h⟩ := Reading.andThen_eq_done.mp h
      have h₁ := readAttributes_le hattrs
      have h₂ := length_skip_le c₁ isTagNameChar
      unfold readTagEnd at h
      split at h
      · obtain ⟨u, hclose, _⟩ := Reading.map_eq_done.mp h
        have h₃ := expect_shorter hclose
        have h₄ := length_advance c₂ 1
        omega
      · obtain ⟨u, hclose, _⟩ := Reading.map_eq_done.mp h
        have h₃ := expect_shorter hclose
        omega

/-- Every token takes at least one character. -/
theorem readNext_shorter {c c' : Cursor} {t : Token} (h : c.readNext = .done (some t) c') :
    c'.rest.length < c.rest.length := by
  have hblank := length_skip_le c isBlank
  unfold readNext at h
  simp only at h
  split at h
  · simp at h
  · next rest hrest =>
    obtain ⟨t', hcomment, _⟩ := Reading.map_eq_done.mp h
    unfold readComment at hcomment
    simp only at hcomment
    split at hcomment
    · simp [Reading.fail] at hcomment
    · injection hcomment with _ hc
      subst hc
      have h₁ := length_advance (c.skip isBlank) 2
      have h₂ := length_skip_le ((c.skip isBlank).advance 2) (· == '-')
      simp only [hrest, List.length_cons] at h₁ hblank
      rw [length_advance]
      omega
  · obtain ⟨t', htag, _⟩ := Reading.map_eq_done.mp h
    have := readTag_shorter htag
    omega
  · next x xs hne hlt hrest =>
    obtain ⟨t', htext, _⟩ := Reading.map_eq_done.mp h
    injection htext with _ hc
    subst hc
    have hx : x ≠ '<' := fun hx => hlt hx
    have hrun : (c.skip isBlank).run (· != '<') ≠ [] := by simp [run, hrest, hx]
    have := skip_shorter hrun
    omega

/-- Reads all tokens from here to the end of the text. -/
def readAll (c : Cursor) : Reading (List Token) :=
  match _h : c.readNext with
  | .failed e c' => .failed e c'
  | .done none c' => .done [] c'
  | .done (some t) c' => c'.readAll.map (t :: ·)
termination_by c.rest.length
decreasing_by exact readNext_shorter _h

end Cursor

/-- The tokens of a text. -/
def Token.scan (text : String) : Except CompileError (List Token) :=
  (Cursor.ofString text).readAll.result

end Wxml
