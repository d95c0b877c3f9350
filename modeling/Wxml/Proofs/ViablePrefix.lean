import Wxml.Proofs.Scan.Extension

/-!
# What an error says about longer texts

Reading stops at its first error. Seen from the texts that start with the one that was read, errors
are of two kinds. The end of the input is reported where the text could have gone on: some longer
text is read. Everything else is reported at a character that cannot stand where it stands: every
longer text has the same error.

There is one exception. Inside a tag, a slash is looked at together with the character behind it, so
a slash in the last place is reported as misplaced although `>` may follow it.

**The law** (`scan_error_outlook`) says this of every text that is not read. It is assembled from
two readings of the same error. What remains of the text behind the error, and a text that completes
it, is `Cursor.Fault`, proved reader by reader: the completed text is spelled out, and spellings are
read. That a final error stays is `Cursor.readAll_extend`.

**Not established**: which text completes one that ends too early. The proofs construct one, but the
law only says that there is one. Completing a text says nothing about a tree: the completed text has
tokens, and these may still be comments only.
-/

namespace Wxml

open Wxml.Text

/-! ## Faults -/

/-- What follows from an error with some cause when `rest` was left to read. `Completes` says which
texts, put behind the one that was read, make it complete. -/
inductive Outlook (cause : Cause) (rest : List Char) (Completes : List Char → Prop) : Prop
  | ended (reported : cause = .endOfInput) (nothing : rest = []) (completes : ∃ s, Completes s)
  | slash (reported : cause = .expected "'>' after '/'") (last : rest = ['/'])
      (completes : Completes ['>'])
  | misplaced (reported : ∃ what, cause = .expected what ∨ cause = .unexpected what)
      (something : rest ≠ []) (notSlash : cause = .expected "'>' after '/'" → rest ≠ ['/'])

/-- **An error as a reader reports it**: it stands where the reader stopped, somewhere in the text
that was to be read, and has one of the outlooks. -/
structure Cursor.Fault (c : Cursor) (e : CompileError) (c' : Cursor)
    (Completes : List Char → Prop) : Prop where
  position : e.position = some c'.position
  passes : ∃ x, c.Passes x c'
  outlook : Outlook e.cause c'.rest Completes

namespace Cursor.Fault

variable {c c₀ c' : Cursor} {e : CompileError} {C D : List Char → Prop}

/-- A fault of one part of a text is a fault of the text that the part is the end of. -/
theorem behind {x : List Char} (h : c.Fault e c' C) (before : c₀.Passes x c)
    (whole : ∀ s, C s → D s) : c₀.Fault e c' D where
  position := h.position
  passes := by
    obtain ⟨y, hy⟩ := h.passes
    exact ⟨x ++ y, before.trans hy⟩
  outlook := by
    cases h.outlook with
    | ended reported nothing completes =>
      obtain ⟨s, hs⟩ := completes
      exact .ended reported nothing ⟨s, whole s hs⟩
    | slash reported last completes => exact .slash reported last (whole _ completes)
    | misplaced reported something notSlash => exact .misplaced reported something notSlash

theorem imp (h : c.Fault e c' C) (whole : ∀ s, C s → D s) : c.Fault e c' D :=
  h.behind (.refl c) whole

/-- The end of the text, where something completes it. What that is has to be given, here as for
every other use of this case. -/
theorem endOfInput {x : List Char} (passes : c.Passes x c') (nothing : c'.rest = [])
    {s : List Char} (completes : C s) : c.Fault ⟨.endOfInput, some c'.position⟩ c' C :=
  ⟨rfl, ⟨x, passes⟩, .ended rfl nothing ⟨s, completes⟩⟩

/-- A character that may not stand where it stands. Nothing has to complete it. -/
theorem unexpected {x : List Char} (passes : c.Passes x c') (something : c'.rest ≠ [])
    (what : String) : c.Fault ⟨.unexpected what, some c'.position⟩ c' C :=
  ⟨rfl, ⟨x, passes⟩, .misplaced ⟨what, .inr rfl⟩ something (fun h => by cases h)⟩

/-- Another character than the one that has to stand there. The slash in a tag is kept out, as it
has a case of its own. -/
theorem expected {x : List Char} (passes : c.Passes x c') (something : c'.rest ≠ []) {what : String}
    (notSlash : what ≠ "'>' after '/'") : c.Fault ⟨.expected what, some c'.position⟩ c' C :=
  ⟨rfl, ⟨x, passes⟩, .misplaced ⟨what, .inl rfl⟩ something
    (fun h => absurd (Cause.expected.inj h) notSlash)⟩

end Cursor.Fault

/-! ## Attributes -/

/-- A name with a value in quotes is an attribute, whatever the value is. The attribute that
completes a text is made in this way. -/
theorem IsAttributeName.exists_spelling {name value : List Char} {quote : Char}
    (named : IsAttributeName name) (isQuote : quote = '"' ∨ quote = '\'') (closed : quote ∉ value) :
    ∃ t, AttributeSpelling t false (name ++ '=' :: quote :: (value ++ [quote])) := by
  rw [← String.toList_ofList (l := name), ← String.toList_ofList (l := value)] at *
  exact ⟨.ofAttribute (String.ofList name) (String.ofList value) .start,
    .quoted named isQuote closed⟩

namespace Cursor

/-- A value is cut short only by the end of the text, and its quote completes it. -/
theorem readValue_failed {c c' : Cursor} {quote : Char} {name : String} {start : Position}
    {e : CompileError} (h : c.readValue quote name start = .failed e c') :
    e = ⟨.endOfInput, some c'.position⟩ ∧ c.Passes c.rest c' ∧ c'.rest = [] ∧ quote ∉ c.rest := by
  have hskip := passes_skip c (· != quote)
  have hstops := stops_skip c (· != quote)
  have hclose := Reading.map_eq_failed.mp h
  unfold expect at hclose
  split at hclose
  · next hnil =>
    obtain ⟨rfl, rfl⟩ := Reading.fail_eq_failed.mp hclose
    have hrest := hskip.rest
    rw [hnil, List.append_nil] at hrest
    refine ⟨rfl, by rwa [hrest], hnil, ?_⟩
    rw [hrest]
    intro hmem
    simpa using of_mem_run hmem
  · next x xs hrest =>
    -- a run of other characters ends at the quote
    rw [hrest, stops_cons, bne_eq_false_iff_eq] at hstops
    rw [if_pos hstops] at hclose
    cases hclose

/-- What completes an attribute is the rest of its value and its quote. With a name and nothing
behind it there is no error, and so nothing to complete. -/
theorem readAttribute_failed {c c' : Cursor} {e : CompileError}
    (h : c.readAttribute = .failed e c') (inside : c.rest ≠ []) :
    c.Fault e c' fun s => ∃ z t, s = z ++ ['>'] ∧ AttributeSpelling t false (c.rest ++ z) := by
  have hname := passes_skip c isAttributeNameChar
  cases c.attributeShape with
  | unnamed unnamed =>
    rw [readAttribute_unnamed unnamed] at h
    obtain ⟨rfl, rfl⟩ := Reading.fail_eq_failed.mp h
    exact .unexpected (.refl c') inside _
  | bare named alone =>
    rw [readAttribute_bare named alone] at h
    cases h
  | cut named hrest =>
    rw [readAttribute_cut named hrest] at h
    obtain ⟨rfl, rfl⟩ := Reading.fail_eq_failed.mp h
    obtain ⟨t, spelled⟩ := (isAttributeName_run named).exists_spelling (.inl rfl)
      (List.not_mem_nil (a := '"'))
    refine .endOfInput (hname.trans (passes_advance (x := ['=']) hrest)) (by simp [hrest])
      (s := ['"', '"'] ++ ['>']) ⟨['"', '"'], t, rfl, ?_⟩
    rwa [hname.rest, hrest, List.append_assoc]
  | @quoted quote rest named hrest isQuote =>
    rw [readAttribute_assigned named hrest, if_pos isQuote] at h
    have hopen : (c.skip isAttributeNameChar).Passes ['=', quote]
      ((c.skip isAttributeNameChar).advance 2) := passes_advance (x := ['=', quote]) hrest
    obtain ⟨rfl, hvalue, hnil, closed⟩ := readValue_failed h
    have hvalueRest : ((c.skip isAttributeNameChar).advance 2).rest = rest := by
      rw [rest_advance, hrest]
      rfl
    rw [hvalueRest] at closed
    obtain ⟨t, spelled⟩ := (isAttributeName_run named).exists_spelling isQuote closed
    refine .endOfInput (hname.trans (hopen.trans hvalue)) hnil
      (s := [quote] ++ ['>']) ⟨[quote], t, rfl, ?_⟩
    rwa [hname.rest, hrest, List.append_assoc]
  | unquoted named hrest notQuote =>
    rw [readAttribute_assigned named hrest, if_neg notQuote] at h
    obtain ⟨rfl, rfl⟩ := Reading.fail_eq_failed.mp h
    refine .expected (hname.trans (passes_advance (x := ['=']) hrest)) (by simp [hrest]) ?_
    intro hwhat
    have hfirst := congrArg (fun s => s.toList.head?) hwhat
    simp at hfirst

/-- What completes the attributes of a tag is the rest of the last one and the end of the tag. The
slash is the one fault that `>` alone completes. -/
theorem readAttributes_failed {c c' : Cursor} {e : CompileError}
    (h : c.readAttributes = .failed e c') (apart : Bool)
    (touches : apart = true → Stops isTagNameChar c.rest) :
    c.Fault e c' fun s => ∃ ts y z, AttributesSpelling apart ts y ∧ (z = ['>'] ∨ z = ['/', '>']) ∧
      c.rest ++ s = y ++ z := by
  fun_induction readAttributes c generalizing apart with
  | case1 c hrest =>
    obtain ⟨rfl, rfl⟩ := Reading.fail_eq_failed.mp h
    refine .endOfInput (.refl c') hrest (s := ['>']) ⟨[], [], ['>'], .nil .nil, .inl rfl, ?_⟩
    rw [hrest]
  | case2 => cases h
  | case3 => cases h
  | case4 c xs hhead hrest =>
    obtain ⟨rfl, rfl⟩ := Reading.fail_eq_failed.mp h
    refine ⟨rfl, ⟨[], .refl c'⟩, ?_⟩
    cases xs with
    | nil => exact .slash rfl hrest ⟨[], [], ['/', '>'], .nil .nil, .inr rfl, by rw [hrest]; rfl⟩
    | cons x xs => exact .misplaced ⟨_, .inl rfl⟩ (by simp [hrest]) fun _ => by simp [hrest]
  | case5 c b xs hrest _ _ blank ih =>
    have hb : c.Passes [b] (c.advance 1) := passes_advance (x := [b]) hrest
    refine (ih h false Bool.noConfusion).behind hb ?_
    rintro s ⟨ts, y, z, spelled, ends, hs⟩
    refine ⟨ts, b :: y, z, spelled.cons_blank blank apart, ends, ?_⟩
    rw [hb.rest, List.append_assoc, hs]
    rfl
  | case6 c x xs hrest hgt hslash hblank e₁ c₁ hattr =>
    cases h
    refine (readAttribute_failed hattr (by simp [hrest])).imp ?_
    rintro s ⟨z, t, hs, spelled⟩
    rw [hrest] at touches
    have separated := separated_of_touches touches hgt hslash hblank
    refine ⟨[t], _, ['>'], .cons .nil separated spelled (.nil .nil), .inl rfl, ?_⟩
    rw [hs, List.nil_append, List.append_nil, List.append_assoc]
  | case7 c x xs hrest hgt hslash hblank t c₁ hattr ih =>
    obtain ⟨bare, y, spelled, passes, stops⟩ := readAttribute_done hattr
    have hrests := ih (Reading.map_eq_failed.mp h) bare stops
    refine hrests.behind passes ?_
    rintro s ⟨ts, y', z, others, ends, hs⟩
    rw [hrest] at touches
    have separated := separated_of_touches touches hgt hslash hblank
    refine ⟨t :: ts, _, z, .cons .nil separated spelled others, ends, ?_⟩
    rw [passes.rest, List.append_assoc, hs, List.nil_append, List.append_assoc]

end Cursor

/-! ## Tags and comments -/

/-- A text is completed to a tag or a comment. -/
def CompletesToken (x : List Char) : Prop := ∃ t : Token, t.kind ≠ .text ∧ t.Spelling x

/-- A name, blanks and `>` complete a closing tag. The name may be empty, as it may be in a
document. -/
theorem IsTagName.completesToken {name gap : List Char} (named : IsTagName name)
    (blank : IsGap gap) : CompletesToken ('<' :: '/' :: (name ++ (gap ++ ['>']))) := by
  rw [← String.toList_ofList (l := name)] at *
  exact ⟨⟨.closeTag, String.ofList name, .start, none, none⟩, TokenKind.noConfusion,
    .closeTag named blank⟩

theorem TagSpelling.completesToken {name : String} {ts : List Token} {x z : List Char}
    (tag : TagSpelling name ts x) (ends : z = ['>'] ∨ z = ['/', '>']) :
    CompletesToken (x ++ z) := by
  rcases ends with rfl | rfl
  · exact ⟨⟨.openTag, name, .start, none, some ts⟩, TokenKind.noConfusion, .openTag tag⟩
  · exact ⟨⟨.selfCloseTag, name, .start, none, some ts⟩, TokenKind.noConfusion, .selfCloseTag tag⟩

namespace Cursor

/-- A closing tag fails at the end of the text, where `>` completes it, or at something else behind
its name. -/
theorem readCloseTag_failed {c c' : Cursor} {start : Position} {e : CompileError}
    (h : c.readCloseTag start = .failed e c') :
    c.Fault e c' fun s => CompletesToken ('<' :: '/' :: (c.rest ++ s)) := by
  have hname := passes_skip c isTagNameChar
  have hgap := passes_skip (c.skip isTagNameChar) isBlank
  have hclose := Reading.map_eq_failed.mp h
  unfold expect at hclose
  split at hclose
  · next hnil =>
    obtain ⟨rfl, rfl⟩ := Reading.fail_eq_failed.mp hclose
    refine .endOfInput (hname.trans hgap) hnil (s := ['>']) ?_
    rw [hname.rest, hgap.rest, hnil, List.append_nil, List.append_assoc]
    exact (isTagName_run c).completesToken (isGap_run _)
  · next x xs hrest =>
    split at hclose
    · cases hclose
    · obtain ⟨rfl, rfl⟩ := Reading.fail_eq_failed.mp hclose
      refine .expected (hname.trans hgap) (by simp [hrest]) ?_
      intro hwhat
      have hfifth := congrArg (fun s => s.toList[4]?) hwhat
      simp at hfifth

/-- An opening tag without a name may still get one, unless something else stands there. In its
attributes it fails as they do. -/
theorem readOpenTag_failed {c c' : Cursor} {start : Position} {e : CompileError}
    (h : c.readOpenTag start = .failed e c') (notComment : c.rest.head? ≠ some '!') :
    c.Fault e c' fun s => CompletesToken ('<' :: (c.rest ++ s)) := by
  have hname := passes_skip c isTagNameChar
  by_cases hrest : c.rest = []
  · rw [readOpenTag_nil hrest] at h
    obtain ⟨rfl, rfl⟩ := Reading.fail_eq_failed.mp h
    -- any name completes a lone `<`
    refine .endOfInput (.refl c') hrest (s := ['a', '>']) ?_
    have tag : TagSpelling "a" [] ['<', 'a'] := by
      refine ⟨fun c hc => ?_, by decide, by decide, [], .nil .nil, rfl⟩
      rw [List.mem_singleton.mp hc]
      decide
    rw [hrest]
    exact tag.completesToken (.inl rfl)
  · unfold readOpenTag at h
    by_cases named : c.run isTagNameChar = []
    · rw [if_pos named, if_neg hrest] at h
      obtain ⟨rfl, rfl⟩ := Reading.fail_eq_failed.mp h
      exact .unexpected (.refl c') hrest _
    · rw [if_neg named] at h
      rcases Reading.andThen_eq_failed.mp h with hattributes | ⟨ts, c₁, hattributes, hend⟩
      · have hfault := readAttributes_failed hattributes true fun _ => stops_skip c isTagNameChar
        refine hfault.behind hname ?_
        rintro s ⟨ts, y, z, spelled, ends, hs⟩
        have hhead : (c.run isTagNameChar).head? ≠ some '!' := by
          obtain ⟨ch, cs, hcons⟩ := List.exists_cons_of_ne_nil named
          rw [hname.rest, hcons] at notComment
          rwa [hcons]
        have tag : TagSpelling (String.ofList (c.run isTagNameChar)) ts
            ('<' :: (c.run isTagNameChar ++ y)) := by
          refine ⟨?_, ?_, ?_, y, spelled, ?_⟩ <;> rw [String.toList_ofList]
          · exact isTagName_run c
          · exact named
          · exact hhead
        rw [hname.rest, List.append_assoc, hs, ← List.append_assoc]
        exact tag.completesToken ends
      · -- behind its attributes a tag has its end
        obtain ⟨_, -, -, ends⟩ := readAttributes_done hattributes false Bool.noConfusion
        rcases ends with ⟨rest, hclose⟩ | ⟨rest, hclose⟩
        · rw [readTagEnd_open _ _ _ (passes_advance (x := ['>']) hclose)] at hend
          cases hend
        · rw [readTagEnd_selfClose _ _ _ (passes_advance (x := ['/', '>']) hclose)] at hend
          cases hend

/-- A `<` that is the last character may become any tag. Otherwise the reader of the kind of tag has
failed. -/
theorem readTag_failed {c c' : Cursor} {rest : List Char} {e : CompileError}
    (h : c.readTag = .failed e c') (hrest : c.rest = '<' :: rest)
    (notComment : rest.head? ≠ some '!') :
    c.Fault e c' fun s => CompletesToken (c.rest ++ s) := by
  have hstart : c.Passes ['<'] (c.advance 1) := passes_advance (x := ['<']) hrest
  have hinside : (c.advance 1).rest = rest := by
    rw [rest_advance, hrest]
    rfl
  rw [readTag_of_passes hstart, hinside] at h
  split at h
  · next hslash =>
    obtain ⟨rest, rfl⟩ := List.head?_eq_some_iff.mp hslash
    have hclose : (c.advance 1).Passes ['/'] ((c.advance 1).advance 1) :=
      passes_advance (x := ['/']) hinside
    refine (readCloseTag_failed h).behind (hstart.trans hclose) fun s completes => ?_
    rw [(hstart.trans hclose).rest]
    exact completes
  · refine (readOpenTag_failed h (by rwa [hinside])).behind hstart fun s completes => ?_
    rw [hstart.rest]
    exact completes

end Cursor

/-- A comment that holds a `-->` has ended. So one that has not ended holds none, and can be
completed by one. -/
theorem commentBody?_ne_none {cs : List Char} (h : ['-', '-', '>'] <:+: cs) :
    commentBody? cs ≠ none := by
  fun_induction commentBody? cs with
  | case1 => simp at h
  | case2 => exact Option.some_ne_none _
  | case3 x xs hfirst ih =>
    rcases List.infix_cons_iff.mp h with hfront | hinside
    · -- at the front it would have been found
      obtain ⟨tail, htail⟩ := hfront
      injection htail with hx htail
      exact absurd htail.symm (hfirst _ hx.symm)
    · simpa using ih hinside

/-- Whatever a comment has so far, one more character and `-->` complete it. Without the character
the content could be empty, and the dashes would be skipped with those in front. -/
theorem completesToken_comment {dashes : Nat} {cs : List Char} (stops : Stops (· == '-') cs)
    (unclosed : commentBody? cs = none) :
    CompletesToken ('<' :: '!' :: (List.replicate dashes '-' ++ (cs ++ ['x', '-', '-', '>']))) := by
  have nonempty : cs ++ ['x'] ≠ [] := by simp
  have starts : (cs ++ ['x']).head? ≠ some '-' := by
    cases cs with
    | nil => simp
    | cons c cs => simpa using stops_cons.mp stops
  have closed : ¬ ['-', '-', '>'] <:+: cs ++ ['x'] := by
    intro hinfix
    rcases List.infix_concat_iff.mp hinfix with hlast | hinside
    · obtain ⟨front, hfront⟩ := hlast
      have hlast := congrArg List.getLast? hfront
      simp at hlast
    · exact commentBody?_ne_none hinside unclosed
  rw [← String.toList_ofList (l := cs ++ ['x'])] at nonempty starts closed
  refine ⟨⟨.comment, String.ofList (cs ++ ['x']), .start, none, none⟩, TokenKind.noConfusion, ?_⟩
  have spelled := @Token.Spelling.comment _ .start dashes nonempty starts closed
  rwa [String.toList_ofList, List.append_assoc] at spelled

namespace Cursor

/-- A comment fails in one way only: it does not end. A character and `-->` complete it, whatever
stands in it so far. -/
theorem readComment_failed {c c' : Cursor} {rest : List Char} {e : CompileError}
    (h : c.readComment = .failed e c') (hrest : c.rest = '<' :: '!' :: rest) :
    c.Fault e c' fun s => CompletesToken (c.rest ++ s) := by
  have hstart : c.Passes ['<', '!'] (c.advance 2) := passes_advance (x := ['<', '!']) hrest
  have hdashes := passes_skip (c.advance 2) (· == '-')
  have hrun : (c.advance 2).run (· == '-') =
      List.replicate ((c.advance 2).run (· == '-')).length '-' := by
    refine List.eq_replicate_of_mem fun ch hch => ?_
    simpa using of_mem_run hch
  unfold readComment at h
  simp only at h
  split at h
  · next hbody =>
    obtain ⟨rfl, rfl⟩ := Reading.fail_eq_failed.mp h
    have hend := passes_advance (List.append_nil ((c.advance 2).skip (· == '-')).rest).symm
    refine .endOfInput (hstart.trans (hdashes.trans hend)) List.drop_length
      (s := ['x', '-', '-', '>']) ?_
    rw [hstart.rest, hdashes.rest, hrun, List.append_assoc, List.append_assoc]
    exact completesToken_comment (stops_skip _ _) hbody
  · cases h

/-! ## Tokens -/

/-- The next token fails as the reader does that it calls. The blanks in front belong to the
layout. -/
theorem readNext_failed {c c' : Cursor} {e : CompileError} (h : c.readNext = .failed e c') :
    c.Fault e c' fun s => ∃ gap x, IsGap gap ∧ CompletesToken x ∧ c.rest ++ s = gap ++ x := by
  have hgap := passes_skip c isBlank
  have whole : ∀ s, CompletesToken ((c.skip isBlank).rest ++ s) →
      ∃ gap x, IsGap gap ∧ CompletesToken x ∧ c.rest ++ s = gap ++ x := by
    intro s completes
    refine ⟨_, _, isGap_run c, completes, ?_⟩
    rw [hgap.rest, List.append_assoc]
  cases hrest : (c.skip isBlank).rest with
  | nil =>
    obtain ⟨c₁, hnext⟩ := readNext_of_gap (c := c) (by
      rw [hgap.rest, hrest, List.append_nil]
      exact isGap_run c)
    rw [hnext] at h
    cases h
  | cons x xs =>
    by_cases hx : x = '<'
    · subst hx
      by_cases hcomment : xs.head? = some '!'
      · obtain ⟨rest, rfl⟩ := List.head?_eq_some_iff.mp hcomment
        rw [readNext_eq_readComment rfl hrest] at h
        exact (readComment_failed (Reading.map_eq_failed.mp h) hrest).behind hgap whole
      · rw [readNext_eq_readTag rfl hrest hcomment] at h
        exact (readTag_failed (Reading.map_eq_failed.mp h) hrest hcomment).behind hgap whole
    · rw [readNext_eq_readText rfl hrest hx] at h
      cases h

/-- **Every error of a text is a fault**: where the text ends too early, it can be completed to a
layout. The tokens before the error are laid out as they were read. -/
theorem readAll_fault {c c' : Cursor} {e : CompileError} (h : c.readAll = .failed e c')
    {afterText : Bool} (behind : afterText = true → Stops (· != '<') c.rest) :
    c.Fault e c' fun s => ∃ ts, Layout afterText ts (c.rest ++ s) := by
  fun_induction readAll c generalizing afterText with
  | case1 c e₁ c₁ hnext =>
    cases h
    have inside := rest_ne_nil_of_readAll (readAll_failed hnext)
    refine (readNext_failed hnext).imp ?_
    rintro s ⟨gap, x, blank, ⟨t, hkind, spelled⟩, hs⟩
    refine ⟨[t], ?_⟩
    rw [hs, ← List.append_nil (gap ++ x)]
    refine .cons blank (fun hafter => ?_) spelled (.nil .nil fun _ => rfl)
    have hstops := (behind hafter).append inside s
    rw [hs, ← List.append_nil (gap ++ x)] at hstops
    exact spelled.tight blank hstops
  | case2 => cases h
  | case3 c t c₁ hnext ih =>
    obtain ⟨gap, x, blank, spelled, passes, ends⟩ := readNext_done hnext
    have hrest : c₁.Fault e c' fun s => ∃ ts, Layout (t.kind == .text) ts (c₁.rest ++ s) :=
      ih (Reading.map_eq_failed.mp h) fun htext => ends (by simpa using htext)
    refine hrest.behind passes ?_
    rintro s ⟨ts, laid⟩
    refine ⟨t :: ts, ?_⟩
    rw [passes.rest] at behind
    rw [passes.rest, List.append_assoc]
    exact .cons blank (fun hafter => spelled.tight blank (behind hafter)) spelled laid

end Cursor

/-! ## The law -/

/-- The error of a text is the one that the loop answers with, wherever it stopped. -/
theorem Token.scan_eq_error_iff {text : String} {e : CompileError} :
    Token.scan text = .error e ↔ ∃ c, (Cursor.ofString text).readAll = .failed e c := by
  unfold Token.scan
  cases (Cursor.ofString text).readAll with
  | done us c => simp [Reading.result]
  | failed e' c => simp [Reading.result]

/-- An error is known without regard to tokens. Equality of tokens is not decided here, so results
of reading are compared by the number of tokens. -/
theorem Token.scan_eq_error_of_map {text : String} {e : CompileError}
    (h : (Token.scan text).map List.length = .error e) : Token.scan text = .error e := by
  cases hscan : Token.scan text with
  | ok ts =>
    rw [hscan] at h
    cases h
  | error e' =>
    rw [hscan] at h
    cases h
    rfl

theorem Cursor.extend_ofString (text more : String) :
    (Cursor.ofString text).extend more.toList = Cursor.ofString (text ++ more) := by
  simp [Cursor.extend, Cursor.ofString]

/-- A text that is completed to a layout is read. -/
theorem Token.exists_scan_of_layout {text : String} {more : List Char} {ts : List Token}
    (laid : Layout false ts ((Cursor.ofString text).rest ++ more)) :
    ∃ us, Token.scan (text ++ String.ofList more) = .ok us := by
  have laid' : Layout false ts (text ++ String.ofList more).toList := by
    rw [String.toList_append, String.toList_ofList]
    exact laid
  obtain ⟨us, hscan, -⟩ := Token.scan_of_layout laid'
  exact ⟨us, hscan⟩

/-- What was passed and what is left make up a text, and the offset counts what was passed. -/
theorem Cursor.Passes.ofString {text : String} {x : List Char} {c : Cursor}
    (h : (Cursor.ofString text).Passes x c) :
    text.toList = x ++ c.rest ∧ text.length = x.length + c.rest.length ∧
      c.position.offset = x.length := by
  have htext : text.toList = x ++ c.rest := h.rest
  refine ⟨htext, ?_, ?_⟩
  · rw [← String.length_toList, htext, List.length_append]
  · rw [h.position, Position.offset_after]
    exact Int.zero_add _

/-- The error stands at a slash that is the last character of the text. -/
def AtLastSlash (text : String) (e : CompileError) (p : Position) : Prop :=
  e.cause = .expected "'>' after '/'" ∧ text.toList.getLast? = some '/' ∧ p.offset + 1 = text.length

instance (text : String) (e : CompileError) (p : Position) : Decidable (AtLastSlash text e p) :=
  inferInstanceAs (Decidable (_ ∧ _ ∧ _))

/-- Whether an error stands at a last slash can be seen from the text, as the law has it, or from
what is left to read, as the readers have it. -/
theorem atLastSlash_iff {text : String} {e : CompileError} {c : Cursor} {x : List Char}
    (passes : (Cursor.ofString text).Passes x c) :
    AtLastSlash text e c.position ↔ e.cause = .expected "'>' after '/'" ∧ c.rest = ['/'] := by
  obtain ⟨htext, hlength, hoffset⟩ := passes.ofString
  unfold AtLastSlash
  rw [hoffset, hlength, htext]
  constructor
  · rintro ⟨hcause, hlast, hlength⟩
    obtain ⟨ch, hrest⟩ := List.length_eq_one_iff.mp (show c.rest.length = 1 by omega)
    rw [hrest, List.getLast?_concat] at hlast
    rw [hrest, Option.some.inj hlast]
    exact ⟨hcause, rfl⟩
  · rintro ⟨hcause, hrest⟩
    rw [hrest, List.getLast?_concat]
    exact ⟨hcause, rfl, rfl⟩

/-- **What an error says about longer texts.** The end of the input is reported at the end of a text
that some longer text completes. Any other error stands at a character of the text and is the error
of every longer text, with the one exception of a last slash, which `>` completes. -/
theorem scan_error_outlook {text : String} {e : CompileError}
    (failed : Token.scan text = .error e) :
    ∃ p, e.position = some p ∧
      ((e.cause = .endOfInput ∧ p = Position.start.after text.toList ∧ p.offset = text.length ∧
          ∃ more ts, Token.scan (text ++ more) = .ok ts) ∨
        (∃ what, e.cause = .expected what ∨ e.cause = .unexpected what) ∧
          0 ≤ p.offset ∧ p.offset < text.length ∧
          (AtLastSlash text e p → ∃ ts, Token.scan (text ++ ">") = .ok ts) ∧
          (¬ AtLastSlash text e p → ∀ more, Token.scan (text ++ more) = .error e)) := by
  obtain ⟨c', hall⟩ := Token.scan_eq_error_iff.mp failed
  have hfault : (Cursor.ofString text).Fault e c' fun s =>
      ∃ ts, Layout false ts ((Cursor.ofString text).rest ++ s) :=
    Cursor.readAll_fault hall Bool.noConfusion
  obtain ⟨hposition, ⟨x, passes⟩, outlook⟩ := hfault
  obtain ⟨htext, hlength, hoffset⟩ := passes.ofString
  refine ⟨c'.position, hposition, ?_⟩
  cases outlook with
  | ended reported nothing completes =>
    left
    obtain ⟨s, ts, laid⟩ := completes
    rw [nothing, List.append_nil] at htext
    rw [nothing, List.length_nil, Nat.add_zero] at hlength
    refine ⟨reported, ?_, by rw [hoffset, hlength], _, Token.exists_scan_of_layout laid⟩
    rw [passes.position, htext]
    rfl
  | slash reported last completes =>
    right
    obtain ⟨ts, laid⟩ := completes
    have atSlash := (atLastSlash_iff passes).mpr ⟨reported, last⟩
    rw [last, List.length_singleton] at hlength
    exact ⟨⟨_, .inl reported⟩, by omega, by omega, fun _ => Token.exists_scan_of_layout laid,
      fun other => absurd atSlash other⟩
  | misplaced reported something notSlash =>
    right
    have hpositive := List.length_pos_iff.mpr something
    refine ⟨reported, by omega, by omega, ?_, ?_⟩
    · intro atSlash
      obtain ⟨hcause, hrest⟩ := (atLastSlash_iff passes).mp atSlash
      exact absurd hrest (notSlash hcause)
    · intro _ more
      have final : (Cursor.ofString text).readAll.Final := by
        rw [hall]
        exact ⟨something, notSlash⟩
      have hmore := Cursor.readAll_extend hall final more.toList
      rw [Cursor.extend_ofString] at hmore
      exact Token.scan_eq_error_iff.mpr ⟨_, hmore⟩

/-- A tag cut off behind its slash, which `>` completes, and a value without quotes, which nothing
completes. -/
theorem scan_error_outlook_slash :
    let slash : CompileError := ⟨.expected "'>' after '/'", some ⟨1, 3, 2⟩⟩
    let bare : CompileError :=
      ⟨.expected "quote to open the value of attribute 'b'", some ⟨1, 6, 5⟩⟩
    (Token.scan "<a/" = .error slash ∧ ∃ ts, Token.scan ("<a/" ++ ">") = .ok ts) ∧
      Token.scan "<a b=c" = .error bare ∧
        ∀ more, Token.scan ("<a b=c" ++ more) = .error bare := by
  intro slash bare
  have hslash : Token.scan "<a/" = .error slash := Token.scan_eq_error_of_map (by decide +kernel)
  have hbare : Token.scan "<a b=c" = .error bare := Token.scan_eq_error_of_map (by decide +kernel)
  refine ⟨⟨hslash, ?_⟩, hbare, ?_⟩
  · obtain ⟨p, hp, ⟨ended, -⟩ | ⟨-, -, -, completes, -⟩⟩ := scan_error_outlook hslash
    · cases ended
    · cases hp
      exact completes (by decide)
  · obtain ⟨p, hp, ⟨ended, -⟩ | ⟨-, -, -, -, stays⟩⟩ := scan_error_outlook hbare
    · cases ended
    · cases hp
      exact stays (by decide)

end Wxml
