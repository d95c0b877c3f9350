import Wxml.Proofs.Scan.Attribute

/-!
# Reading comments and tags

Both directions again: what is answered is spelled, and what is spelled is answered. A comment ends
at the first `-->`, which no earlier one can overlap (`commentBody?_append`).

**Not established**: as for attributes, only values are characterised. A comment that does not end,
a tag without a name and a tag without an end are errors, and where they stand is said elsewhere, of
all readers at once.
-/

namespace Wxml

open Wxml.Text

/-! ## Comments -/

/-- What is found before the first `-->` holds none, and the `-->` follows it. With the converse
below this says what a comment's value is without running the search. -/
theorem commentBody?_eq_some {cs body : List Char} (h : commentBody? cs = some body) :
    (∃ rest, cs = body ++ '-' :: '-' :: '>' :: rest) ∧ ¬ ['-', '-', '>'] <:+: body := by
  fun_induction commentBody? cs generalizing body with
  | case1 => cases h
  | case2 rest =>
    cases h
    exact ⟨⟨rest, rfl⟩, by simp⟩
  | case3 x xs hfirst ih =>
    obtain ⟨inner, hinner, rfl⟩ := Option.map_eq_some_iff.mp h
    obtain ⟨⟨rest, hrest⟩, hclosed⟩ := ih hinner
    refine ⟨⟨rest, by rw [hrest]; rfl⟩, ?_⟩
    intro hinfix
    rcases List.infix_cons_iff.mp hinfix with hfront | hinside
    · -- at the front it would have been found one step earlier
      obtain ⟨tail, htail⟩ := hfront
      injection htail with hx htail
      rw [← htail] at hrest
      exact hfirst _ hx.symm hrest
    · exact hclosed hinside

/-- A `-->` behind characters that hold none is the first one: no `-->` starts inside them. -/
theorem commentBody?_append {body : List Char} (h : ¬ ['-', '-', '>'] <:+: body)
    (rest : List Char) :
    commentBody? (body ++ '-' :: '-' :: '>' :: rest) = some body := by
  induction body with
  | nil => rfl
  | cons x body ih =>
    have hinside : ¬ ['-', '-', '>'] <:+: body :=
      fun hi => h (hi.trans (List.suffix_cons x body).isInfix)
    rw [List.cons_append, commentBody?, ih hinside, Option.map_some]
    intro tail hx htail
    match body, htail with
    | [], htail => simp at htail
    | [y], htail => simp at htail
    | y :: z :: body, htail =>
      injection htail with hy htail
      injection htail with hz htail
      subst hx hy hz
      exact h ⟨[], body, rfl⟩

namespace Cursor

/-- A comment that was read is spelled from its `<!` to its `-->`. The dashes behind `<!` belong to
the spelling and not to its value. -/
theorem readComment_done {c c' : Cursor} {t : Token} {rest : List Char}
    (h : c.readComment = .done t c') (hrest : c.rest = '<' :: '!' :: rest) :
    t.kind = .comment ∧ ∃ x, t.Spelling x ∧ c.Passes x c' := by
  have hstart : c.Passes ['<', '!'] (c.advance 2) := passes_advance (x := ['<', '!']) hrest
  have hdashes := passes_skip (c.advance 2) (· == '-')
  have hstops := stops_skip (c.advance 2) (· == '-')
  have hrun : (c.advance 2).run (· == '-') =
      List.replicate ((c.advance 2).run (· == '-')).length '-' := by
    refine List.eq_replicate_of_mem fun ch hch => ?_
    simpa using of_mem_run hch
  unfold readComment at h
  simp only at h
  split at h
  · simp [Reading.fail] at h
  · next body hbody =>
    injection h with ht hc
    subst ht hc
    obtain ⟨⟨tail, htail⟩, hclosed⟩ := commentBody?_eq_some hbody
    rw [htail] at hstops
    have hend : ((c.advance 2).skip (· == '-')).Passes (body ++ ['-', '-', '>'])
        (((c.advance 2).skip (· == '-')).advance (body.length + 3)) := by
      have := passes_advance (c := (c.advance 2).skip (· == '-')) (x := body ++ ['-', '-', '>'])
        (y := tail) (by rw [htail, List.append_assoc]; rfl)
      rwa [List.length_append] at this
    -- all dashes are behind us, so the content starts with something else
    have hne : body ≠ [] := by
      rintro rfl
      exact absurd (stops_cons.mp hstops) (by decide)
    have hhead : body.head? ≠ some '-' := by
      intro hdash
      obtain ⟨inner, rfl⟩ := List.head?_eq_some_iff.mp hdash
      exact absurd (stops_cons.mp hstops) (by decide)
    have hall := hstart.trans (hdashes.trans hend)
    rw [hrun] at hall
    rw [← String.toList_ofList (l := body)] at hne hhead hclosed
    refine ⟨rfl, _,
      @Token.Spelling.comment _ _ ((c.advance 2).run (· == '-')).length hne hhead hclosed, ?_⟩
    rwa [String.toList_ofList]

/-- A comment is read back behind any number of dashes. Its value may neither start with a dash,
which would be skipped with them, nor be empty, nor hold a `-->`. -/
theorem readComment_of_passes {c c' : Cursor} {value : String} {dashes : Nat}
    (starts : value.toList.head? ≠ some '-') (nonempty : value.toList ≠ [])
    (closed : ¬ ['-', '-', '>'] <:+: value.toList)
    (h : c.Passes
      ('<' :: '!' :: (List.replicate dashes '-' ++ (value.toList ++ ['-', '-', '>']))) c') :
    c.readComment = .done { kind := .comment, value, position := c.position } c' := by
  have hsplit : c.Passes (['<', '!'] ++ (List.replicate dashes '-' ++
    (value.toList ++ ['-', '-', '>']))) c' := h
  obtain ⟨c₁, hstart, hrest⟩ := hsplit.split
  obtain ⟨c₂, hdashes, hend⟩ := hrest.split
  have stops : Stops (· == '-') c₂.rest := by
    obtain ⟨ch, cs, hvalue⟩ := List.exists_cons_of_ne_nil nonempty
    rw [hvalue] at starts
    rw [hend.rest, hvalue]
    exact stops_cons.mpr (by simpa using starts)
  have all : ∀ ch ∈ List.replicate dashes '-', (ch == '-') = true := by
    intro ch hch
    simpa using (List.mem_replicate.mp hch).2
  have hinside : (c.advance 2).skip (· == '-') = c₂ := by
    have hadvance : c.advance 2 = c₁ := hstart.eq_advance.symm
    rw [hadvance, hdashes.skip_eq all stops]
  have hbody : commentBody? c₂.rest = some value.toList := by
    rw [hend.rest, List.append_assoc]
    exact commentBody?_append closed c'.rest
  unfold readComment
  simp only [hinside, hbody, String.ofList_toList]
  rw [hend.eq_advance, List.length_append]
  rfl

end Cursor

/-! ## Tags -/

namespace Cursor

/-- A closing tag that was read consists of a name, blanks and `>`. The name may be empty. -/
theorem readCloseTag_done {c c' : Cursor} {start : Position} {t : Token}
    (h : c.readCloseTag start = .done t c') :
    ∃ name gap, t = { kind := .closeTag, value := String.ofList name, position := start } ∧
      IsTagName name ∧ IsGap gap ∧ c.Passes (name ++ (gap ++ ['>'])) c' := by
  obtain ⟨u, hclose, rfl⟩ := Reading.map_eq_done.mp h
  have hname := passes_skip c isTagNameChar
  have hgap := passes_skip (c.skip isTagNameChar) isBlank
  exact ⟨_, _, rfl, isTagName_run c, isGap_run _, hname.trans (hgap.trans (expect_done hclose))⟩

/-- A closing tag is read back with any blanks behind its name. -/
theorem readCloseTag_of_passes {c c' : Cursor} {name gap : List Char} (start : Position)
    (named : IsTagName name) (blank : IsGap gap) (h : c.Passes (name ++ (gap ++ ['>'])) c') :
    c.readCloseTag start =
      .done { kind := .closeTag, value := String.ofList name, position := start } c' := by
  obtain ⟨c₁, hname, hrest⟩ := h.split
  obtain ⟨c₂, hgap, hclose⟩ := hrest.split
  have all : ∀ ch ∈ name, isTagNameChar ch = true :=
    fun ch hch => isTagNameChar_iff.mpr (named ch hch)
  have ends : EndsTag c₂.rest := .inl ⟨c'.rest, hclose.rest⟩
  have hstops : Stops isTagNameChar c₁.rest := by
    rw [hgap.rest]
    exact AttributesSpelling.stops (.nil blank) ends
  have hblank : Stops isBlank c₂.rest := by
    rw [hclose.rest]
    exact stops_cons.mpr (by decide)
  unfold readCloseTag
  rw [hname.run_eq all hstops, hname.skip_eq all hstops, hgap.skip_eq blank hblank]
  simp only
  rw [expect_of_passes _ hclose]
  rfl

/-- What ends a tag decides on its kind: `>` opens an element and `/>` is a whole one. -/
theorem readTagEnd_done {c c' : Cursor} {name : String} {attributes : List Token} {start : Position}
    {t : Token} (h : c.readTagEnd name attributes start = .done t c') :
    (t = { kind := .openTag, value := name, position := start, attributes := some attributes } ∧
      c.Passes ['>'] c') ∨
    (t = { kind := .selfCloseTag, value := name, position := start,
            attributes := some attributes } ∧
      c.Passes ['/', '>'] c') := by
  unfold readTagEnd at h
  split at h
  · next hslash =>
    obtain ⟨u, hclose, rfl⟩ := Reading.map_eq_done.mp h
    obtain ⟨rest, hrest⟩ : ∃ rest, c.rest = '/' :: rest := by
      rw [peek?, ← List.head?_eq_getElem?] at hslash
      exact List.head?_eq_some_iff.mp hslash
    have hfirst : c.Passes ['/'] (c.advance 1) := passes_advance (x := ['/']) hrest
    exact .inr ⟨rfl, hfirst.trans (expect_done hclose)⟩
  · obtain ⟨u, hclose, rfl⟩ := Reading.map_eq_done.mp h
    exact .inl ⟨rfl, expect_done hclose⟩

/-- Before `>` a tag is an opening one, with the attributes that were read for it and the position
of its `<`. -/
theorem readTagEnd_open {c c' : Cursor} (name : String) (attributes : List Token) (start : Position)
    (h : c.Passes ['>'] c') :
    c.readTagEnd name attributes start =
      .done { kind := .openTag, value := name, position := start, attributes := some attributes }
        c' := by
  have hpeek : c.peek? 0 ≠ some '/' := by
    rw [peek?, h.rest]
    simp
  unfold readTagEnd
  rw [if_neg hpeek, expect_of_passes _ h]
  rfl

theorem readTagEnd_selfClose {c c' : Cursor} (name : String) (attributes : List Token)
    (start : Position) (h : c.Passes ['/', '>'] c') :
    c.readTagEnd name attributes start =
      .done { kind := .selfCloseTag, value := name, position := start,
              attributes := some attributes }
        c' := by
  have hsplit : c.Passes (['/'] ++ ['>']) c' := h
  obtain ⟨c₁, hslash, hclose⟩ := hsplit.split
  have hpeek : c.peek? 0 = some '/' := by
    rw [peek?, h.rest]
    rfl
  have hadvance : c.advance 1 = c₁ := hslash.eq_advance.symm
  unfold readTagEnd
  rw [if_pos hpeek, hadvance, expect_of_passes _ hclose]
  rfl

theorem readOpenTag_nil {c : Cursor} (h : c.rest = []) (start : Position) :
    c.readOpenTag start = .fail .endOfInput c := by
  have hrun : c.run isTagNameChar = [] := by
    rw [run, h]
    rfl
  unfold readOpenTag
  rw [if_pos hrun, if_pos h]

/-- What the reader of opening tags answers is spelled behind the `<`. A comment has to be excluded,
as a name may start with any character that no rule forbids, `!` among them. -/
theorem readOpenTag_done {c c' : Cursor} {start : Position} {t : Token}
    (h : c.readOpenTag start = .done t c') (notComment : c.rest.head? ≠ some '!') :
    t.kind ≠ .text ∧ ∃ x, t.Spelling ('<' :: x) ∧ c.Passes x c' := by
  have hname := passes_skip c isTagNameChar
  unfold readOpenTag at h
  split at h
  · split at h <;> simp [Reading.fail] at h
  · next hrun =>
    obtain ⟨attributes, c₁, hattributes, hend⟩ := Reading.andThen_eq_done.mp h
    obtain ⟨y, spelled, passes, -⟩ := readAttributes_done hattributes true
      fun _ => stops_skip c isTagNameChar
    have hhead : (c.run isTagNameChar).head? ≠ some '!' := by
      obtain ⟨ch, cs, hcons⟩ := List.exists_cons_of_ne_nil hrun
      rw [hname.rest, hcons] at notComment
      rwa [hcons]
    have tag : TagSpelling (String.ofList (c.run isTagNameChar)) attributes
        ('<' :: (c.run isTagNameChar ++ y)) := by
      refine ⟨?_, ?_, ?_, y, spelled, ?_⟩ <;> rw [String.toList_ofList]
      · exact isTagName_run c
      · exact hrun
      · exact hhead
    have hbody := hname.trans passes
    rcases readTagEnd_done hend with ⟨rfl, hclose⟩ | ⟨rfl, hclose⟩
    · exact ⟨TokenKind.noConfusion, _, .openTag tag, hbody.trans hclose⟩
    · exact ⟨TokenKind.noConfusion, _, .selfCloseTag tag, hbody.trans hclose⟩

/-- The reader of opening tags reads any spelling up to the end of the tag, and leaves the end to
`readTagEnd`. The attributes are those that are spelled, up to positions. -/
theorem readOpenTag_of_spelling {c c₁ : Cursor} {name : String} {ts : List Token} {x : List Char}
    (start : Position) (tag : TagSpelling name ts ('<' :: x)) (h : c.Passes x c₁)
    (ends : EndsTag c₁.rest) :
    ∃ us, c.readOpenTag start = c₁.readTagEnd name us start ∧
      us.map Token.unplaced = ts.map Token.unplaced := by
  obtain ⟨y, spelled, hwritten⟩ := tag.written
  injection hwritten with _ hwritten
  subst hwritten
  obtain ⟨c₂, hname, hattributes⟩ := h.split
  have all : ∀ ch ∈ name.toList, isTagNameChar ch = true :=
    fun ch hch => isTagNameChar_iff.mpr (tag.named ch hch)
  have stops : Stops isTagNameChar c₂.rest := by
    rw [hattributes.rest]
    exact spelled.stops ends
  obtain ⟨us, hread, hus⟩ := readAttributes_of_spelling spelled hattributes ends
  refine ⟨us, ?_, hus⟩
  unfold readOpenTag
  rw [hname.run_eq all stops, hname.skip_eq all stops, if_neg tag.nonempty, hread,
    String.ofList_toList]
  rfl

/-- The character behind `<` selects the reader of the tag. The position is that of the `<`. -/
theorem readTag_of_passes {c c₁ : Cursor} (h : c.Passes ['<'] c₁) :
    c.readTag = if c₁.rest.head? = some '/' then (c₁.advance 1).readCloseTag c.position
      else c₁.readOpenTag c.position := by
  unfold readTag
  rw [expect_of_passes _ h]
  show (if c₁.peek? 0 = some '/' then _ else _) = _
  rw [peek?, ← List.head?_eq_getElem?]

/-- A tag that was read, of any of the three kinds, is spelled where it was read. A comment starts
with `<` as well and is excluded here, since the token reader has looked for it before. -/
theorem readTag_done {c c' : Cursor} {t : Token} {rest : List Char} (h : c.readTag = .done t c')
    (hrest : c.rest = '<' :: rest) (notComment : rest.head? ≠ some '!') :
    t.kind ≠ .text ∧ ∃ x, t.Spelling x ∧ c.Passes x c' := by
  have hstart : c.Passes ['<'] (c.advance 1) := passes_advance (x := ['<']) hrest
  have hinside : (c.advance 1).rest = rest := by rw [rest_advance, hrest]; rfl
  rw [readTag_of_passes hstart, hinside] at h
  split at h
  · next hslash =>
    obtain ⟨name, gap, rfl, named, blank, passes⟩ := readCloseTag_done h
    obtain ⟨rest', rfl⟩ := List.head?_eq_some_iff.mp hslash
    have hfirst : (c.advance 1).Passes ['/'] ((c.advance 1).advance 1) :=
      passes_advance (x := ['/']) hinside
    refine ⟨TokenKind.noConfusion, _, .closeTag (by rwa [String.toList_ofList]) blank, ?_⟩
    rw [String.toList_ofList]
    exact hstart.trans (hfirst.trans passes)
  · obtain ⟨hkind, x, spelled, passes⟩ := readOpenTag_done h (by rwa [hinside])
    exact ⟨hkind, '<' :: x, spelled, hstart.trans passes⟩

end Cursor

/-- An opening tag starts neither like a comment nor like a closing tag, whatever stands behind what
is spelled of it so far. So the readers before it do not take it for one. -/
theorem TagSpelling.starts {name : String} {ts : List Token} {x : List Char}
    (h : TagSpelling name ts x) :
    ∃ y, x = '<' :: y ∧ ∀ rest : List Char, (y ++ rest).head? ≠ some '!' ∧
      (y ++ rest).head? ≠ some '/' := by
  obtain ⟨y, -, rfl⟩ := h.written
  obtain ⟨c, cs, hname⟩ := List.exists_cons_of_ne_nil h.nonempty
  have hslash := (h.named c (by rw [hname]; exact List.mem_cons_self)).1
  have hbang := h.notComment
  rw [hname, List.head?_cons] at hbang
  refine ⟨_, rfl, fun rest => ?_⟩
  rw [hname]
  exact ⟨hbang, by simpa using hslash⟩

namespace Cursor

/-- The tag reader reads any spelling of an opening or self-closing tag up to its end. -/
theorem readTag_of_tagSpelling {c c₁ : Cursor} {name : String} {ts : List Token} {x : List Char}
    (tag : TagSpelling name ts x) (h : c.Passes x c₁) (ends : EndsTag c₁.rest) :
    ∃ us, c.readTag = c₁.readTagEnd name us c.position ∧
      us.map Token.unplaced = ts.map Token.unplaced := by
  obtain ⟨y, rfl, front⟩ := tag.starts
  have hsplit : c.Passes (['<'] ++ y) c₁ := h
  obtain ⟨c₂, hstart, hrest⟩ := hsplit.split
  obtain ⟨us, hread, hus⟩ := readOpenTag_of_spelling c.position tag hrest ends
  refine ⟨us, ?_, hus⟩
  have hslash : c₂.rest.head? ≠ some '/' := by
    rw [hrest.rest]
    exact (front _).2
  rw [readTag_of_passes hstart, if_neg hslash, hread]

end Cursor

end Wxml
