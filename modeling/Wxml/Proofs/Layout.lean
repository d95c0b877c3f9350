import Wxml.Token.Scan

/-!
# How tokens are written

The reverse side of reading. A token has many spellings: blanks stand inside tags, a value stands
between either quote, a comment starts with any number of dashes. `Token.Spelling` lists them all,
token by token, and `Layout` puts spellings in a row, with blanks between them. Neither runs a
reader.

Two things must not touch. A name takes up whatever could belong to it, so a blank has to stand
before the first attribute of a tag and behind a bare attribute. A text takes up everything before
the next `<`, so no blank and no other text follows one.

Spellings do not know where a token stands. **`Layout.of_unplaced`**: a layout of some tokens is a
layout of all tokens that differ from them in positions only.

**Not established**: that a token list has a layout at all. Tokens built by hand may have none, e.g.
a text with a `<` in it.
-/

namespace Wxml

open Wxml.Text

/-! ## Tokens up to positions -/

mutual

/-- The token with every position in it changed, its own and those of its attributes. -/
def Token.mapPositions (f : Position → Position) : Token → Token
  | ⟨kind, value, position, rawValue, none⟩ => ⟨kind, value, f position, rawValue, none⟩
  | ⟨kind, value, position, rawValue, some attributes⟩ =>
    ⟨kind, value, f position, rawValue, some (Token.mapPositionsAll f attributes)⟩

/-- The tokens with every position in them changed. -/
def Token.mapPositionsAll (f : Position → Position) : List Token → List Token
  | [] => []
  | t :: ts => t.mapPositions f :: Token.mapPositionsAll f ts

end

/-- The list half of the mutual recursion is the library's `map`, whose lemmas are used from here
on. -/
theorem Token.mapPositionsAll_eq_map (f : Position → Position) (ts : List Token) :
    Token.mapPositionsAll f ts = ts.map (Token.mapPositions f) := by
  induction ts with
  | nil => rfl
  | cons t ts ih => rw [Token.mapPositionsAll, ih, List.map_cons]

/-- The token as if it stood at the start of a text, its attributes too. Two tokens are equal up to
positions when this makes them equal. -/
def Token.unplaced (t : Token) : Token := t.mapPositions fun _ => .start

/-- A token without attributes loses only its own position. -/
theorem Token.unplaced_plain (kind : TokenKind) (value : String) (position : Position)
    (rawValue : Option String) :
    Token.unplaced ⟨kind, value, position, rawValue, none⟩ =
      ⟨kind, value, .start, rawValue, none⟩ := by
  simp only [Token.unplaced, Token.mapPositions]

/-- A tag loses its own position and those of its attributes. -/
theorem Token.unplaced_tag (kind : TokenKind) (value : String) (position : Position)
    (rawValue : Option String) (attributes : List Token) :
    Token.unplaced ⟨kind, value, position, rawValue, some attributes⟩ =
      ⟨kind, value, .start, rawValue, some (attributes.map Token.unplaced)⟩ := by
  simp only [Token.unplaced, Token.mapPositions, Token.mapPositionsAll_eq_map]
  rfl

/-- Only the position of a plain token is open when the rest of it is known. -/
theorem Token.eq_of_unplaced_plain {t : Token} {kind : TokenKind} {value : String}
    {rawValue : Option String} (same : t.unplaced = ⟨kind, value, .start, rawValue, none⟩) :
    t = ⟨kind, value, t.position, rawValue, none⟩ := by
  obtain ⟨k, v, p, r, attributes⟩ := t
  cases attributes with
  | none =>
    rw [Token.unplaced_plain] at same
    injection same with hk hv _ hr
    rw [hk, hv, hr]
  | some as =>
    rw [Token.unplaced_tag] at same
    injection same with _ _ _ _ hnone
    cases hnone

/-- Only the positions of a tag and of its attributes are open when the rest of it is known. -/
theorem Token.eq_of_unplaced_tag {t : Token} {kind : TokenKind} {value : String}
    {rawValue : Option String} {attributes : List Token}
    (same : t.unplaced = ⟨kind, value, .start, rawValue, some (attributes.map Token.unplaced)⟩) :
    ∃ as, t = ⟨kind, value, t.position, rawValue, some as⟩ ∧
      as.map Token.unplaced = attributes.map Token.unplaced := by
  obtain ⟨k, v, p, r, inner⟩ := t
  cases inner with
  | none =>
    rw [Token.unplaced_plain] at same
    injection same with _ _ _ _ hsome
    cases hsome
  | some as =>
    rw [Token.unplaced_tag] at same
    injection same with hk hv _ hr has
    refine ⟨as, ?_, Option.some.inj has⟩
    rw [hk, hv, hr]

@[simp] theorem Token.kind_unplaced (t : Token) : t.unplaced.kind = t.kind := by
  obtain ⟨k, v, p, r, attributes⟩ := t
  cases attributes with
  | none => rw [Token.unplaced_plain]
  | some as => rw [Token.unplaced_tag]

/-- Tokens that are equal up to positions are of one kind, so that they are written by the same
rule. -/
theorem Token.kind_eq_of_unplaced {t u : Token} (same : t.unplaced = u.unplaced) :
    t.kind = u.kind := by
  rw [← t.kind_unplaced, same, u.kind_unplaced]

/-! ## Spellings -/

/-- A run of blanks, perhaps an empty one. -/
def IsGap (g : List Char) : Prop := ∀ c ∈ g, isBlank c = true

theorem IsGap.nil : IsGap [] := by
  intro c hc
  cases hc

/-- What a closing tag may be named. An opening tag may be named so too if there is something left
of the name and it does not start with `!`. -/
def IsTagName (name : List Char) : Prop := ∀ c ∈ name, c ≠ '/' ∧ c ≠ '>' ∧ isBlank c = false

/-- What an attribute may be named. -/
structure IsAttributeName (name : List Char) : Prop where
  nonempty : name ≠ []
  plain : ∀ c ∈ name, c ≠ '=' ∧ c ≠ '>' ∧ c ≠ '/' ∧ isBlank c = false

/-- How an attribute is written: its name alone, or the name and a value between quotes that do not
stand in the value. The flag says whether it is bare. -/
inductive AttributeSpelling : Token → Bool → List Char → Prop
  | bare {name : String} {position : Position} (named : IsAttributeName name.toList) :
      AttributeSpelling (.ofAttribute name bareValue position) true name.toList
  | quoted {name value : String} {position : Position} {quote : Char}
      (named : IsAttributeName name.toList) (isQuote : quote = '"' ∨ quote = '\'')
      (closed : quote ∉ value.toList) :
      AttributeSpelling (.ofAttribute name value position) false
        (name.toList ++ '=' :: quote :: (value.toList ++ [quote]))

/-- How the attributes of a tag are written, with the blanks before, between and behind them. The
flag says whether the first one has to stand apart from what is before it. -/
inductive AttributesSpelling : Bool → List Token → List Char → Prop
  | nil {apart : Bool} {gap : List Char} (blank : IsGap gap) : AttributesSpelling apart [] gap
  | cons {apart bare : Bool} {t : Token} {ts : List Token} {gap x y : List Char}
      (blank : IsGap gap) (separated : apart = true → gap ≠ [])
      (first : AttributeSpelling t bare x) (others : AttributesSpelling bare ts y) :
      AttributesSpelling apart (t :: ts) (gap ++ x ++ y)

/-- How an opening or self-closing tag is written, up to its end. -/
structure TagSpelling (name : String) (attributes : List Token) (x : List Char) : Prop where
  named : IsTagName name.toList
  nonempty : name.toList ≠ []
  notComment : name.toList.head? ≠ some '!'
  written : ∃ y, AttributesSpelling true attributes y ∧ x = '<' :: (name.toList ++ y)

/-- How a token is written. -/
inductive Token.Spelling : Token → List Char → Prop
  | text {value : String} {position : Position} {c : Char}
      (starts : value.toList.head? = some c) (dark : isBlank c = false)
      (plain : '<' ∉ value.toList) :
      Spelling { kind := .text, value, position } value.toList
  | comment {value : String} {position : Position} {dashes : Nat}
      (nonempty : value.toList ≠ []) (starts : value.toList.head? ≠ some '-')
      (closed : ¬ ['-', '-', '>'] <:+: value.toList) :
      Spelling { kind := .comment, value, position }
        ('<' :: '!' :: (List.replicate dashes '-' ++ (value.toList ++ ['-', '-', '>'])))
  | closeTag {value : String} {position : Position} {gap : List Char}
      (named : IsTagName value.toList) (blank : IsGap gap) :
      Spelling { kind := .closeTag, value, position }
        ('<' :: '/' :: (value.toList ++ (gap ++ ['>'])))
  | openTag {value : String} {position : Position} {attributes : List Token} {x : List Char}
      (tag : TagSpelling value attributes x) :
      Spelling { kind := .openTag, value, position, attributes := some attributes } (x ++ ['>'])
  | selfCloseTag {value : String} {position : Position} {attributes : List Token} {x : List Char}
      (tag : TagSpelling value attributes x) :
      Spelling { kind := .selfCloseTag, value, position, attributes := some attributes }
        (x ++ ['/', '>'])

/-- How tokens are written in a row, with the blanks before, between and behind them. The flag says
whether a text stands before them: then there is no blank and no other text. -/
inductive Layout : Bool → List Token → List Char → Prop
  | nil {afterText : Bool} {gap : List Char} (blank : IsGap gap)
      (tight : afterText = true → gap = []) : Layout afterText [] gap
  | cons {afterText : Bool} {t : Token} {ts : List Token} {gap x rest : List Char}
      (blank : IsGap gap) (tight : afterText = true → gap = [] ∧ t.kind ≠ .text)
      (first : t.Spelling x) (others : Layout (t.kind == .text) ts rest) :
      Layout afterText (t :: ts) (gap ++ x ++ rest)

/-- Every token of a layout is spelled somewhere in it. Facts about all tokens of a text are read
off their spellings in this way. -/
theorem Layout.exists_spelling {ts : List Token} {afterText : Bool} {x : List Char}
    (h : Layout afterText ts x) {t : Token} (ht : t ∈ ts) : ∃ y, t.Spelling y := by
  induction h with
  | nil => cases ht
  | cons _ _ first _ ih =>
    rcases List.mem_cons.mp ht with rfl | ht
    · exact ⟨_, first⟩
    · exact ih ht

/-! ## Names of attributes -/

/-- An attribute that can be written has a legal name, bare or not. -/
theorem AttributeSpelling.named {t : Token} {bare : Bool} {x : List Char}
    (h : AttributeSpelling t bare x) : IsAttributeName t.value.toList := by
  cases h with
  | bare named => exact named
  | quoted named => exact named

/-- Every attribute of a tag that can be written can be written by itself. -/
theorem AttributesSpelling.exists_spelling {ts : List Token} {apart : Bool} {x : List Char}
    (h : AttributesSpelling apart ts x) {t : Token} (ht : t ∈ ts) :
    ∃ bare y, AttributeSpelling t bare y := by
  induction h with
  | nil => cases ht
  | cons _ _ first _ ih =>
    rcases List.mem_cons.mp ht with rfl | ht
    · exact ⟨_, _, first⟩
    · exact ih ht

/-- The attributes of a token that can be written have legal names. A token without attributes has
nothing to show. Whatever is proved of names in documents starts here. -/
theorem Token.Spelling.attributes_named {t : Token} {x : List Char} (h : t.Spelling x) :
    ∀ a ∈ t.attributes.getD [], IsAttributeName a.value.toList := by
  have tagged : ∀ {name x as}, TagSpelling name as x →
      ∀ a ∈ as, IsAttributeName a.value.toList := by
    intro name x as tag a ha
    obtain ⟨y, written, -⟩ := tag.written
    obtain ⟨bare, z, spelled⟩ := written.exists_spelling ha
    exact spelled.named
  cases h with
  | text => exact List.forall_mem_nil _
  | comment => exact List.forall_mem_nil _
  | closeTag => exact List.forall_mem_nil _
  | openTag tag => exact tagged tag
  | selfCloseTag tag => exact tagged tag

/-! ## Spellings and positions -/

/-- No rule for an attribute mentions where it stands, so an attribute at another place is spelled
alike. -/
theorem AttributeSpelling.of_unplaced {t u : Token} {bare : Bool} {x : List Char}
    (h : AttributeSpelling t bare x) (same : u.unplaced = t.unplaced) :
    AttributeSpelling u bare x := by
  cases h with
  | bare named =>
    rw [Token.eq_of_unplaced_plain (same.trans (Token.unplaced_plain ..))]
    exact .bare named
  | quoted named isQuote closed =>
    rw [Token.eq_of_unplaced_plain (same.trans (Token.unplaced_plain ..))]
    exact .quoted named isQuote closed

/-- The attributes of a tag, one by one. The flags depend on the spellings and not on the tokens. -/
theorem AttributesSpelling.of_unplaced {ts us : List Token} {apart : Bool} {x : List Char}
    (h : AttributesSpelling apart ts x) (same : us.map Token.unplaced = ts.map Token.unplaced) :
    AttributesSpelling apart us x := by
  induction h generalizing us with
  | nil blank =>
    rw [List.map_eq_nil_iff.mp same]
    exact .nil blank
  | cons blank separated first others ih =>
    obtain ⟨u, us, rfl, hu, hus⟩ := List.map_eq_cons_iff.mp same
    exact .cons blank separated (first.of_unplaced hu) (ih hus)

/-- A tag is spelled alike wherever its attributes stand. -/
theorem TagSpelling.of_unplaced {name : String} {ts us : List Token} {x : List Char}
    (h : TagSpelling name ts x) (same : us.map Token.unplaced = ts.map Token.unplaced) :
    TagSpelling name us x := by
  obtain ⟨y, attributes, written⟩ := h.written
  exact ⟨h.named, h.nonempty, h.notComment, y, attributes.of_unplaced same, written⟩

/-- No rule for a token mentions where it or one of its attributes stands. -/
theorem Token.Spelling.of_unplaced {t u : Token} {x : List Char} (h : t.Spelling x)
    (same : u.unplaced = t.unplaced) : u.Spelling x := by
  cases h with
  | text starts dark plain =>
    rw [Token.eq_of_unplaced_plain (same.trans (Token.unplaced_plain ..))]
    exact .text starts dark plain
  | comment nonempty starts closed =>
    rw [Token.eq_of_unplaced_plain (same.trans (Token.unplaced_plain ..))]
    exact .comment nonempty starts closed
  | closeTag named blank =>
    rw [Token.eq_of_unplaced_plain (same.trans (Token.unplaced_plain ..))]
    exact .closeTag named blank
  | openTag tag =>
    obtain ⟨as, hu, has⟩ := Token.eq_of_unplaced_tag (same.trans (Token.unplaced_tag ..))
    rw [hu]
    exact .openTag (tag.of_unplaced has)
  | selfCloseTag tag =>
    obtain ⟨as, hu, has⟩ := Token.eq_of_unplaced_tag (same.trans (Token.unplaced_tag ..))
    rw [hu]
    exact .selfCloseTag (tag.of_unplaced has)

/-- **A layout does not depend on positions.** Reading gives tokens with positions of their own; the
layouts of those tokens are the layouts of all that are equal to them otherwise. -/
theorem Layout.of_unplaced {ts us : List Token} {afterText : Bool} {x : List Char}
    (h : Layout afterText ts x) (same : us.map Token.unplaced = ts.map Token.unplaced) :
    Layout afterText us x := by
  induction h generalizing us with
  | nil blank tight =>
    rw [List.map_eq_nil_iff.mp same]
    exact .nil blank tight
  | cons blank tight first others ih =>
    obtain ⟨u, us, rfl, hu, hus⟩ := List.map_eq_cons_iff.mp same
    have hkind := Token.kind_eq_of_unplaced hu
    rw [← hkind] at tight ih
    exact .cons blank tight (first.of_unplaced hu) (ih hus)

end Wxml
