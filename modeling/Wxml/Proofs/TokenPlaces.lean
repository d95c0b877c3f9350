import Wxml.Proofs.Positions
import Wxml.Proofs.Scan.Reach

/-!
# Where tokens and errors stand

A text can be read by any calls in any order (`Request`), each from where the last one stopped, also
when that one failed. All the while line, column and offset are those of a place in the text, and so
are all positions that an answer holds: those of tokens, of their attributes, and of errors.

Where all tokens of a text are asked for, more is known. Tokens and attributes are found one behind
the other (`Cursor.Finds`), each with something of its own at its place (`Token.Shows`): a tag or a
comment its `<`, a text its content, an attribute its name.

**The law** (`run_positions`) says both of every run.

**Not established**: where the attributes of a tag end, and where a token ends. Positions are those
of starts; that a token reaches up to the next one's start or less is in `Finds`, but not in the
law.
-/

namespace Wxml

open Wxml.Text

/-! ## Runs -/

/-- A call on a cursor. -/
inductive Request where
  | next
  | all
  | peek (ahead : Nat)
  | advance (count : Nat)
  | skip (p : Char → Bool)
  | expect (char : Char) (what : String)
  | readTag
  | readText
  | readComment
  | readAttribute
  | readAttributes

/-- What a call answers: the tokens that it reads. Most calls read one, and some none. -/
def Request.answer : Request → Cursor → Reading (List Token)
  | .next, c => c.readNext.map Option.toList
  | .all, c => c.readAll
  | .peek _, c => .done [] c
  | .advance count, c => .done [] (c.advance count)
  | .skip p, c => .done [] (c.skip p)
  | .expect char what, c => (c.expect char what).map fun _ => []
  | .readTag, c => c.readTag.map ([·])
  | .readText, c => c.readText.map ([·])
  | .readComment, c => c.readComment.map ([·])
  | .readAttribute, c => c.readAttribute.map ([·])
  | .readAttributes, c => c.readAttributes

/-- Some calls with their answers, each made where the one before stopped. -/
def Cursor.serve (c : Cursor) : List Request → List (Request × Reading (List Token))
  | [] => []
  | q :: qs => (q, q.answer c) :: (q.answer c).cursor.serve qs

mutual

/-- A token and its attributes, in the order in which they are written. -/
def Token.withAttributes : Token → List Token
  | ⟨kind, value, position, rawValue, none⟩ => [⟨kind, value, position, rawValue, none⟩]
  | ⟨kind, value, position, rawValue, some attributes⟩ =>
    ⟨kind, value, position, rawValue, some attributes⟩ :: Token.withAttributesAll attributes

/-- Some tokens and their attributes, in the order in which they are written. -/
def Token.withAttributesAll : List Token → List Token
  | [] => []
  | t :: ts => t.withAttributes ++ Token.withAttributesAll ts

end

theorem Token.withAttributesAll_singleton (t : Token) :
    Token.withAttributesAll [t] = t.withAttributes := by
  rw [Token.withAttributesAll, Token.withAttributesAll, List.append_nil]

/-! ## Tokens one behind the other -/

/-- What a token shows of itself in the characters that start where it stands. -/
structure Token.Shows (t : Token) (x : List Char) : Prop where
  something : x ≠ []
  opening : t.kind ≠ .text → t.kind ≠ .attribute → x.head? = some '<'
  verbatim : t.kind = .text ∨ t.kind = .attribute → t.value.toList <+: x

/-- **The tokens are found between two cursors, one behind the other.** Each stands where a cursor
stands and takes some characters from there, which `Shown` relates to it. -/
inductive Cursor.Finds (Shown : Token → List Char → Prop) : Cursor → List Token → Cursor → Prop
  | nil {c c' : Cursor} {x : List Char} (passes : c.Passes x c') : Finds Shown c [] c'
  | cons {c c₁ c₂ c' : Cursor} {gap x : List Char} {t : Token} {ts : List Token}
      (before : c.Passes gap c₁) (here : t.position = c₁.position) (takes : c₁.Passes x c₂)
      (shown : Shown t x) (others : Finds Shown c₂ ts c') : Finds Shown c (t :: ts) c'

namespace Cursor.Finds

variable {Shown : Token → List Char → Prop} {c c₀ c' c'' : Cursor} {ts us : List Token}
  {t : Token} {x : List Char}

/-- What is found from some place on is found from every earlier place on. -/
theorem behind (h : Finds Shown c ts c') (before : c₀.Passes x c) : Finds Shown c₀ ts c' := by
  cases h with
  | nil passes => exact .nil (before.trans passes)
  | cons gap here takes shown others => exact .cons (before.trans gap) here takes shown others

/-- What is found in two parts of a text is found in both together. -/
theorem append (h : Finds Shown c ts c') (others : Finds Shown c' us c'') :
    Finds Shown c (ts ++ us) c'' := by
  induction h with
  | nil passes => exact others.behind passes
  | cons before here takes shown _ ih => exact .cons before here takes shown (ih others)

/-- Behind the last token something more may be passed: blanks, or the end of a tag. -/
theorem further (h : Finds Shown c ts c') (behind : c'.Passes x c'') : Finds Shown c ts c'' := by
  have hfinds := h.append (.nil behind)
  rwa [List.append_nil] at hfinds

/-- A relation between tokens and their characters may be weakened. The laws for any call, where a
reader need not have been called at a token, ask for no relation at all. -/
theorem imp {Shown' : Token → List Char → Prop} (h : Finds Shown c ts c')
    (weaker : ∀ t x, Shown t x → Shown' t x) : Finds Shown' c ts c' := by
  induction h with
  | nil passes => exact .nil passes
  | cons before here takes shown _ ih => exact .cons before here takes (weaker _ _ shown) ih

/-- One token that stands at the cursor, and takes what is passed from there. -/
theorem single (here : t.position = c.position) (takes : c.Passes x c') (shown : Shown t x) :
    Finds Shown c [t] c' :=
  .cons (.refl c) here takes shown (.nil (.refl c'))

/-- Every token that is found stands where a cursor stands, and shows itself there. -/
theorem exists_of_mem (h : Finds Shown c ts c') (ht : t ∈ ts) :
    ∃ gap c₁ x c₂, c.Passes gap c₁ ∧ t.position = c₁.position ∧ c₁.Passes x c₂ ∧ Shown t x := by
  induction h with
  | nil => cases ht
  | cons before here takes shown others ih =>
    rcases List.mem_cons.mp ht with rfl | ht
    · exact ⟨_, _, _, _, before, here, takes, shown⟩
    · obtain ⟨gap, c₁, y, c₂, before', here', takes', shown'⟩ := ih ht
      exact ⟨_, c₁, y, c₂, (before.trans takes).trans before', here', takes', shown'⟩

/-- **Tokens that take something stand at greater and greater offsets.** -/
theorem ascending (h : Finds Shown c ts c') (something : ∀ t x, Shown t x → x ≠ []) :
    ts.Pairwise fun t u => t.position.offset < u.position.offset := by
  induction h with
  | nil => exact .nil
  | @cons c c₁ c₂ c' gap x t ts before here takes shown others ih =>
    refine .cons ?_ ih
    intro u hu
    obtain ⟨gap', c₃, _, _, before', here', -, -⟩ := others.exists_of_mem hu
    have hpositive := List.length_pos_iff.mpr (something t x shown)
    rw [here, here', before'.position, takes.position, Position.offset_after,
      Position.offset_after]
    omega

end Cursor.Finds

/-! ## What the readers find -/

/-- The first that is written of an attribute is its name, and it has no attributes of its own. -/
theorem AttributeSpelling.shows {t : Token} {bare : Bool} {x : List Char}
    (h : AttributeSpelling t bare x) : t.Shows x ∧ t.withAttributes = [t] := by
  obtain ⟨ch, cs, hx, -⟩ := h.starts
  have something : x ≠ [] := by
    rw [hx]
    exact List.cons_ne_nil ch cs
  cases h with
  | bare named =>
    exact ⟨⟨something, fun _ other => absurd rfl other, fun _ => List.prefix_rfl⟩, rfl⟩
  | quoted named isQuote closed =>
    exact ⟨⟨something, fun _ other => absurd rfl other, fun _ => List.prefix_append _ _⟩, rfl⟩

namespace Cursor

/-- An attribute stands where its reader was called, in each of the cases that give a value. -/
theorem position_of_readAttribute {c c' : Cursor} {t : Token} (h : c.readAttribute = .done t c') :
    t.position = c.position := by
  cases c.attributeShape with
  | unnamed unnamed =>
    rw [readAttribute_unnamed unnamed] at h
    cases h
  | bare named alone =>
    rw [readAttribute_bare named alone] at h
    cases h
    rfl
  | cut named hrest =>
    rw [readAttribute_cut named hrest] at h
    cases h
  | quoted named hrest isQuote =>
    rw [readAttribute_assigned named hrest, if_pos isQuote] at h
    obtain ⟨value, rfl, -⟩ := readValue_done h
    rfl
  | unquoted named hrest notQuote =>
    rw [readAttribute_assigned named hrest, if_neg notQuote] at h
    cases h

/-- One attribute is found where its reader was called. -/
theorem finds_of_readAttribute {c c' : Cursor} {t : Token} (h : c.readAttribute = .done t c') :
    Finds Token.Shows c t.withAttributes c' := by
  obtain ⟨bare, x, spelled, passes, -⟩ := readAttribute_done h
  obtain ⟨shown, alone⟩ := spelled.shows
  rw [alone]
  exact .single (position_of_readAttribute h) passes shown

/-- The attributes of a tag are found one behind the other, with blanks passed between them. -/
theorem finds_of_readAttributes {c c' : Cursor} {ts : List Token}
    (h : c.readAttributes = .done ts c') :
    Finds Token.Shows c (Token.withAttributesAll ts) c' := by
  fun_induction readAttributes c generalizing ts with
  | case1 => cases h
  | case2 =>
    cases h
    exact .nil (.refl c')
  | case3 =>
    cases h
    exact .nil (.refl c')
  | case4 => cases h
  | case5 c x xs hrest hgt hslash blank ih => exact (ih h).behind (passes_take c 1)
  | case6 => cases h
  | case7 c x xs hrest hgt hslash hblank t c₁ hattr ih =>
    obtain ⟨us, hus, rfl⟩ := Reading.map_eq_done.mp h
    rw [Token.withAttributesAll]
    exact (finds_of_readAttribute hattr).append (ih hus)

/-- A tag shows its `<`; its attributes are found behind its name, each at its own place. The tag
itself stands before all of them. -/
theorem finds_of_readTag {c c' : Cursor} {t : Token} (h : c.readTag = .done t c') :
    Finds Token.Shows c t.withAttributes c' := by
  obtain ⟨u, c₁, hopen, h⟩ := Reading.andThen_eq_done.mp h
  have hstart := expect_done hopen
  split at h
  · -- nothing more is found in a closing tag
    obtain ⟨name, gap, rfl, -, -, passes⟩ := readCloseTag_done h
    refine .single rfl (hstart.trans ((passes_take c₁ 1).trans passes)) ⟨?_, fun _ _ => rfl, ?_⟩
    · exact List.cons_ne_nil _ _
    · intro other
      rcases other with other | other <;> cases other
  · unfold readOpenTag at h
    split at h
    · split at h <;> cases h
    · next named =>
      obtain ⟨attributes, c₂, hattributes, hend⟩ := Reading.andThen_eq_done.mp h
      have hfinds := finds_of_readAttributes hattributes
      have shown : ∀ {kind : TokenKind} {name : String},
          kind ≠ .text ∧ kind ≠ .attribute →
          Token.Shows ⟨kind, name, c.position, none, some attributes⟩
            (['<'] ++ c₁.run isTagNameChar) := by
        intro kind name other
        refine ⟨List.cons_ne_nil _ _, fun _ _ => rfl, ?_⟩
        rintro (hkind | hkind)
        · exact absurd hkind other.1
        · exact absurd hkind other.2
      have htag := hstart.trans (passes_skip c₁ isTagNameChar)
      rcases readTagEnd_done hend with ⟨rfl, hclose⟩ | ⟨rfl, hclose⟩
      · exact .cons (.refl c) rfl htag (shown ⟨TokenKind.noConfusion, TokenKind.noConfusion⟩)
          (hfinds.further hclose)
      · exact .cons (.refl c) rfl htag (shown ⟨TokenKind.noConfusion, TokenKind.noConfusion⟩)
          (hfinds.further hclose)

/-- A comment stands where its reader was called, whatever stands there: the reader does not look at
the first two characters. -/
theorem readComment_parts {c c' : Cursor} {t : Token} (h : c.readComment = .done t c') :
    t.position = c.position ∧ t.withAttributes = [t] := by
  unfold readComment at h
  dsimp only at h
  split at h
  · cases h
  · cases h
    exact ⟨rfl, rfl⟩

/-- **What the token reader finds** shows itself where it stands, behind the blanks that were
skipped. With nothing found there is nothing to show. -/
theorem finds_of_readNext {c c' : Cursor} {found : Option Token} (h : c.readNext = .done found c') :
    Finds Token.Shows c (Token.withAttributesAll found.toList) c' := by
  have hgap := passes_skip c isBlank
  cases c.nextShape with
  | nothing hrest =>
    rw [readNext_eq_none rfl hrest] at h
    cases h
    exact .nil hgap
  | comment hrest =>
    rw [readNext_eq_readComment rfl hrest] at h
    obtain ⟨t, hread, rfl⟩ := Reading.map_eq_done.mp h
    obtain ⟨here, alone⟩ := readComment_parts hread
    obtain ⟨hkind, x, spelled, passes⟩ := readComment_done hread hrest
    have other : t.kind ≠ .text := by
      rw [hkind]
      exact TokenKind.noConfusion
    obtain ⟨y, rfl⟩ := spelled.starts other
    have shown : t.Shows ('<' :: y) := by
      refine ⟨List.cons_ne_nil _ _, fun _ _ => rfl, ?_⟩
      rw [hkind]
      rintro (hkind | hkind) <;> cases hkind
    rw [Option.toList_some, Token.withAttributesAll_singleton, alone]
    exact (Finds.single here passes shown).behind hgap
  | tag hrest notComment =>
    rw [readNext_eq_readTag rfl hrest notComment] at h
    obtain ⟨t, hread, rfl⟩ := Reading.map_eq_done.mp h
    rw [Option.toList_some, Token.withAttributesAll_singleton]
    exact (finds_of_readTag hread).behind hgap
  | text hrest dark =>
    rw [readNext_eq_readText rfl hrest dark] at h
    obtain ⟨t, hread, rfl⟩ := Reading.map_eq_done.mp h
    cases hread
    have something : (c.skip isBlank).run (· != '<') ≠ [] := by
      rw [run, hrest, List.takeWhile_cons_of_pos (p := (· != '<')) (bne_iff_ne.mpr dark)]
      exact List.cons_ne_nil _ _
    refine (Finds.single rfl (passes_skip _ _) ⟨something, ?_, ?_⟩).behind hgap
    · intro other
      exact absurd rfl other
    · intro _
      exact ⟨[], by rw [String.toList_ofList, List.append_nil]⟩

/-- All tokens of a text and their attributes are found one behind the other. The induction is on
the text that is left. -/
theorem finds_of_readAll {c c' : Cursor} {ts : List Token} (h : c.readAll = .done ts c') :
    Finds Token.Shows c (Token.withAttributesAll ts) c' := by
  fun_induction readAll c generalizing ts with
  | case1 => cases h
  | case2 c c₁ hnext =>
    cases h
    exact finds_of_readNext hnext
  | case3 c t c₁ hnext ih =>
    obtain ⟨us, hus, rfl⟩ := Reading.map_eq_done.mp h
    have hfirst := finds_of_readNext hnext
    rw [Option.toList_some, Token.withAttributesAll_singleton] at hfirst
    rw [Token.withAttributesAll]
    exact hfirst.append (ih hus)

end Cursor

/-! ## One call, and all calls of a run -/

/-- Every call moves forward and reports where it stopped, by the law of its reader. -/
theorem Request.answer_from (q : Request) (c : Cursor) : (q.answer c).From c := by
  cases q with
  | next => exact (c.readNext_from).map _
  | all => exact c.readAll_from
  | peek ahead => exact .done [] (.refl c)
  | advance count => exact .done [] (c.passes_take count)
  | skip p => exact .done [] (c.passes_skip p)
  | expect char what => exact (c.expect_from char what).map _
  | readTag => exact (c.readTag_from).map _
  | readText => exact .done _ (c.passes_skip _)
  | readComment => exact (c.readComment_from).map _
  | readAttribute => exact (c.readAttribute_from).map _
  | readAttributes => exact c.readAttributes_from

/-- Whatever is called, what is found is found between where the call was made and where it
stopped. -/
theorem Request.answer_finds {q : Request} {c c' : Cursor} {ts : List Token}
    (h : q.answer c = .done ts c') :
    Cursor.Finds (fun _ _ => True) c (Token.withAttributesAll ts) c' := by
  have shown : ∀ {us : List Token}, Cursor.Finds Token.Shows c us c' →
      Cursor.Finds (fun _ _ => True) c us c' := fun hfinds => hfinds.imp fun _ _ _ => trivial
  obtain ⟨x, passes⟩ := (q.answer_from c).passes
  rw [h] at passes
  cases q with
  | next =>
    obtain ⟨found, hread, rfl⟩ := Reading.map_eq_done.mp h
    exact shown (Cursor.finds_of_readNext hread)
  | all => exact shown (Cursor.finds_of_readAll h)
  | peek ahead =>
    cases h
    exact .nil passes
  | advance count =>
    cases h
    exact .nil passes
  | skip p =>
    cases h
    exact .nil passes
  | expect char what =>
    obtain ⟨u, -, rfl⟩ := Reading.map_eq_done.mp h
    exact .nil passes
  | readTag =>
    obtain ⟨t, hread, rfl⟩ := Reading.map_eq_done.mp h
    rw [Token.withAttributesAll_singleton]
    exact shown (Cursor.finds_of_readTag hread)
  | readText =>
    cases h
    exact .single rfl passes trivial
  | readComment =>
    obtain ⟨t, hread, rfl⟩ := Reading.map_eq_done.mp h
    obtain ⟨here, alone⟩ := Cursor.readComment_parts hread
    rw [Token.withAttributesAll_singleton, alone]
    exact .single here passes trivial
  | readAttribute =>
    obtain ⟨t, hread, rfl⟩ := Reading.map_eq_done.mp h
    rw [Token.withAttributesAll_singleton]
    exact shown (Cursor.finds_of_readAttribute hread)
  | readAttributes => exact shown (Cursor.finds_of_readAttributes h)

/-- Every call of a run is made somewhere behind where the run started. -/
theorem Cursor.exists_of_mem_serve {c : Cursor} {qs : List Request} {q : Request}
    {r : Reading (List Token)} (h : (q, r) ∈ c.serve qs) :
    ∃ x c₁, c.Passes x c₁ ∧ r = q.answer c₁ := by
  induction qs generalizing c with
  | nil => cases h
  | cons q₁ qs ih =>
    rcases List.mem_cons.mp h with heq | h
    · cases heq
      exact ⟨[], c, .refl c, rfl⟩
    · obtain ⟨x, passes⟩ := (q₁.answer_from c).passes
      obtain ⟨y, c₁, passes', hr⟩ := ih h
      exact ⟨x ++ y, c₁, passes.trans passes', hr⟩

/-- **A run only moves forward.** Every call starts where the one before it stopped, failed or not,
and no call moves back (`Request.answer_from`). -/
theorem Cursor.serve_ascending (c : Cursor) (qs : List Request) :
    (c :: (c.serve qs).map (·.2.cursor)).Pairwise fun d d' =>
      d.position.offset ≤ d'.position.offset := by
  induction qs generalizing c with
  | nil => exact List.pairwise_singleton _ c
  | cons q qs ih =>
    refine .cons ?_ (ih _)
    intro d hd
    obtain ⟨⟨q', r⟩, hmem, rfl⟩ := List.mem_map.mp hd
    obtain ⟨x, c₁, passes, rfl⟩ := Cursor.exists_of_mem_serve hmem
    obtain ⟨y, passes'⟩ := (q'.answer_from c₁).passes
    rw [(passes.trans passes').position, Position.offset_after]
    omega

/-! ## The law -/

/-- A cursor stands in a text: its position is that of a place, and what is left to read is what
stands there. -/
structure Cursor.StandsIn (text : String) (c : Cursor) : Prop where
  place : c.position.IsIn text
  rest : c.rest = text.toList.drop c.position.offset.toNat

/-- All positions in an answer are those of places in a text: the positions of tokens and of their
attributes, or the position of the error. -/
def Reading.IsIn (text : String) : Reading (List Token) → Prop
  | .done ts _ => ∀ t ∈ Token.withAttributesAll ts, t.position.IsIn text
  | .failed e _ => ∃ p, e.position = some p ∧ p.IsIn text

/-- **Tokens stand in a text in order**: tokens and attributes stand one behind the other, `<`
stands where a tag or a comment does, and where a text or an attribute stands its content or name
does. -/
structure Token.InOrder (text : String) (ts : List Token) : Prop where
  ascending : (Token.withAttributesAll ts).Pairwise fun t u =>
    t.position.offset < u.position.offset
  opening : ∀ t ∈ Token.withAttributesAll ts, t.kind ≠ .text → t.kind ≠ .attribute →
    text.toList[t.position.offset.toNat]? = some '<'
  verbatim : ∀ t ∈ Token.withAttributesAll ts, t.kind = .text ∨ t.kind = .attribute →
    t.value.toList <+: text.toList.drop t.position.offset.toNat

/-- What is reached from the start of a text stands in the text. Its position is the position of
that place, and what is left to read is what stands there. -/
theorem Cursor.Passes.standsIn {text : String} {x : List Char} {c : Cursor}
    (h : (Cursor.ofString text).Passes x c) : c.StandsIn text := by
  have htext : text.toList = x ++ c.rest := h.rest
  have hposition : c.position = Position.start.after x := h.position
  refine ⟨hposition ▸ Position.isIn_after htext, ?_⟩
  rw [hposition, Position.after_start]
  show c.rest = text.toList.drop x.length
  rw [htext, List.drop_left]

/-- Tokens that are found from the start of a text on stand in it in order: what `Finds` says of
cursors is said of offsets. -/
theorem Cursor.Finds.inOrder {text : String} {x : List Char} {c c' : Cursor} {ts : List Token}
    (h : Cursor.Finds Token.Shows c (Token.withAttributesAll ts) c')
    (start : (Cursor.ofString text).Passes x c) : Token.InOrder text ts := by
  refine ⟨h.ascending fun _ _ shown => shown.something, ?_, ?_⟩
  · intro t ht hnotText hnotAttribute
    obtain ⟨gap, c₁, y, c₂, before, here, takes, shown⟩ := h.exists_of_mem ht
    have hrest := (start.trans before).standsIn.rest
    obtain ⟨tail, rfl⟩ := List.head?_eq_some_iff.mp (shown.opening hnotText hnotAttribute)
    rw [here, ← List.head?_drop, ← hrest, takes.rest]
    rfl
  · intro t ht hkind
    obtain ⟨gap, c₁, y, c₂, before, here, takes, shown⟩ := h.exists_of_mem ht
    have hrest := (start.trans before).standsIn.rest
    rw [here, ← hrest, takes.rest]
    exact (shown.verbatim hkind).trans (List.prefix_append _ _)

/-- **Positions in a run.** For every text and all calls on it, in any order and whether they fail
or not: the cursor stands in the text before the first call and after each; so does every token,
attribute and error of an answer; offsets never decrease; and where all tokens were asked for and
read, they stand in order. -/
theorem run_positions (text : String) (requests : List Request) :
    let start := Cursor.ofString text
    let stops := start :: (start.serve requests).map (·.2.cursor)
    (∀ c ∈ stops, c.StandsIn text) ∧
    (stops.Pairwise fun c c' => c.position.offset ≤ c'.position.offset) ∧
    (∀ q r, (q, r) ∈ start.serve requests → r.IsIn text) ∧
    ∀ ts c, (.all, .done ts c) ∈ start.serve requests → Token.InOrder text ts := by
  intro start stops
  refine ⟨?_, Cursor.serve_ascending start requests, ?_, ?_⟩
  · intro c hc
    rcases List.mem_cons.mp hc with rfl | hc
    · exact (Cursor.Passes.refl start).standsIn
    · obtain ⟨⟨q, r⟩, hmem, rfl⟩ := List.mem_map.mp hc
      obtain ⟨x, c₁, before, rfl⟩ := Cursor.exists_of_mem_serve hmem
      obtain ⟨y, passes⟩ := (q.answer_from c₁).passes
      exact (before.trans passes).standsIn
  · intro q r hmem
    obtain ⟨x, c, before, rfl⟩ := Cursor.exists_of_mem_serve hmem
    obtain ⟨⟨y, passes⟩, reported⟩ := q.answer_from c
    cases hanswer : q.answer c with
    | done ts c' =>
      intro t ht
      obtain ⟨gap, c₁, _, _, hgap, here, -, -⟩ := (Request.answer_finds hanswer).exists_of_mem ht
      rw [here]
      exact (before.trans hgap).standsIn.place
    | failed e c' =>
      rw [hanswer] at passes
      exact ⟨c'.position, reported e c' hanswer, (before.trans passes).standsIn.place⟩
  · intro ts c hmem
    obtain ⟨x, c₁, before, hanswer⟩ := Cursor.exists_of_mem_serve hmem
    exact (Cursor.finds_of_readAll hanswer.symm).inOrder before

end Wxml
