import Wxml.Proofs.TreeTokens

/-!
# The markup of a tree

A tree can be written down in many ways. Its tokens come in the order of `Written`, with comments
anywhere and closing tags of any name; each token has the spellings of `Token.Spelling`; and
`Layout` puts blanks between them. Two more freedoms are those of a whole document. Closing tags at
its very end may be left out (`WrittenOpen`), and behind a document that has them all, something
else may follow (`IsTrailer`). `Node.Markup` collects all of these ways.

**The law** (`readTree_of_markup`): every way of writing a tree is read as that tree, up to
positions, and the trees that can be written at all are those of `Node.Writable`.

Two facts carry it. At the end of the tokens, the stack reader closes what is open, so a closing tag
that is left out there is not missed (`Node.grow_of_writtenOpen`). And the root is complete with its
own closing tag, so what follows is not looked at (`Node.read?_of_written`).

**Not established**: that every text which is read as the tree is in `Node.Markup`. Behind a
complete document a text may stand as well, and is not looked at either.
-/

namespace Wxml

open Wxml.Text

/-! ## Ways of writing -/

/-- **How trees are written without their last closing tags**: that of the last tree is left out,
or also that of the last tree inside it, and so on. -/
inductive WrittenOpen : List Node → List Token → Prop
  | whole {ns : List Node} {ts : List Token} (written : Written ns ts) : WrittenOpen ns ts
  | unclosed {t : Token} {ns children : List Node} {ts us : List Token} (before : Written ns ts)
      (opens : t.kind = .openTag) (inside : WrittenOpen children us) :
      WrittenOpen (ns ++ [.element t children]) (ts ++ t :: us)

/-- What may follow a complete document: nothing, or whatever starts with `<` and can be read. -/
def IsTrailer (x : List Char) : Prop :=
  x = [] ∨ x.head? = some '<' ∧ ∃ ts, Token.scan (String.ofList x) = .ok ts

/-- **The markup of a tree**, in all ways of writing it. -/
inductive Node.Markup (n : Node) : List Char → Prop
  | complete {ts : List Token} {x trailer : List Char} (written : Written [n] ts)
      (laid : Layout false ts x) (follows : IsTrailer trailer) : Markup n (x ++ trailer)
  | unclosed {ts : List Token} {x : List Char} (written : WrittenOpen [n] ts)
      (laid : Layout false ts x) : Markup n x

/-- **A tree that markup can express**: elements are opening tags, the other nodes are self-closing
tags and texts, and every token has a spelling. -/
inductive Node.Writable : Node → Prop
  | leaf {t : Token} (spelled : ∃ x, t.Spelling x)
      (single : t.kind = .selfCloseTag ∨ t.kind = .text) : Writable (.leaf t)
  | element {t : Token} {children : List Node} (spelled : ∃ x, t.Spelling x)
      (opens : t.kind = .openTag) (inside : ∀ n ∈ children, Writable n) :
      Writable (.element t children)

/-! ## Reading without the last closing tags -/

/-- Where no tree is written, only comments are. They are what may stand before a root and behind
it. -/
theorem Written.comments {ts : List Token} (h : Written [] ts) : ∀ t ∈ ts, t.kind = .comment := by
  generalize hnone : ([] : List Node) = ns at h
  induction h with
  | nil => nofun
  | comment skipped _ ih =>
    intro t ht
    rcases List.mem_cons.mp ht with rfl | ht
    · exact skipped
    · exact ih hnone t ht
  | leaf => cases hnone
  | element => cases hnone

namespace Node

/-- The end of the tokens closes what was left open, as its closing tags would have done. The
induction follows the elements that are left open, from the outermost in. -/
theorem grow_of_writtenOpen {ns : List Node} {ts : List Token} (h : WrittenOpen ns ts) (f : Frame)
    (outer : List Frame) :
    (grow f outer ts).node = Frame.closeAll ⟨f.opener, ns.reverse ++ f.inside⟩ outer := by
  induction h generalizing f outer with
  | @whole ns ts written =>
    have hall := grow_written written f outer []
    rw [List.append_nil] at hall
    exact hall
  | @unclosed t ns children ts us before opens _ ih =>
    rw [grow_written before, grow_open _ _ _ opens, ih, Frame.closeAll, Frame.close,
      List.append_nil, List.reverse_reverse, List.reverse_concat]
    rfl

/-- A tree without its last closing tags is read as the tree. The comments before its root are
passed over. -/
theorem read?_of_writtenOpen {n : Node} {ts : List Token} (h : WrittenOpen [n] ts) :
    ∃ g, read? ts = some g ∧ g.node = n := by
  generalize hone : [n] = ns at h
  cases h with
  | whole written =>
    rw [← hone] at written
    obtain ⟨g, hread, hnode⟩ := read?_of_written written []
    rw [List.append_nil] at hread
    exact ⟨g, hread, hnode⟩
  | @unclosed t ns children ts us before opens inside =>
    -- one tree is written, so nothing but comments stands before its opening tag
    rcases List.append_eq_singleton_iff.mp hone.symm with ⟨rfl, hn⟩ | ⟨-, hnone⟩
    · obtain rfl := List.singleton_inj.mp hn
      have hread := read?_append before.comments (t := t) (by simp [opens]) us
      rw [if_pos opens] at hread
      refine ⟨_, hread, ?_⟩
      rw [grow_of_writtenOpen inside, List.append_nil]
      show Node.element t children.reverse.reverse = _
      rw [List.reverse_reverse]
    · cases hnone

end Node

/-! ## What follows a document -/

/-- Two layouts in a row, if the second starts with a tag or a comment. A text at the end of the
first would go on otherwise. -/
theorem Layout.append {afterText : Bool} {ts us : List Token} {x y : List Char}
    (h : Layout afterText ts x) (following : Layout false us y) (starts : y.head? = some '<') :
    Layout afterText (ts ++ us) (x ++ y) := by
  induction h with
  | @nil afterText gap blank tight =>
    obtain ⟨y', hy⟩ := List.head?_eq_some_iff.mp starts
    have stops : Stops (· != '<') y := by
      rw [hy]
      exact stops_text_cons.mpr rfl
    cases following with
    | nil blank' _ =>
      have hempty := blank'.eq_nil [] (by rwa [List.append_nil])
      rw [hempty] at starts
      cases starts
    | @cons _ t us gap' z rest blank' _ first others =>
      obtain ⟨hgap, hkind⟩ := first.tight blank' stops
      rw [hgap, List.nil_append, ← List.append_assoc]
      exact .cons blank (fun hafter => ⟨tight hafter, hkind⟩) first others
  | @cons afterText t ts gap z rest blank tight first _ ih =>
    rw [List.cons_append, List.append_assoc]
    exact .cons blank tight first ih

/-- A complete document is read as its tree, whatever follows it. The trailer has to be read as
tokens, since tokens are read before the tree is built. -/
theorem exists_readTree_of_trailer {n : Node} {ts : List Token} {x trailer : List Char}
    (written : Written [n] ts) (laid : Layout false ts x) (follows : IsTrailer trailer)
    {text : String} (htext : text.toList = x ++ trailer) :
    ∃ m, (readTree text).1 = .ok m ∧ m.unplaced = n.unplaced := by
  rcases follows with rfl | ⟨starts, us, hscan⟩
  · rw [List.append_nil] at htext
    rw [← htext] at laid
    exact exists_readTree_of_layout written laid
  · have behind := Token.layout_of_scan hscan
    rw [String.toList_ofList] at behind
    obtain ⟨g, hread, rfl⟩ := Node.read?_of_written written us
    apply exists_readTree_of_read? hread
    rw [htext]
    exact laid.append behind starts

/-! ## Which trees can be written -/

/-- A tree that is written with tokens that have spellings is a tree that markup can express.
Closing tags and comments are not asked for a node. -/
theorem Written.writable {ns : List Node} {ts : List Token} (h : Written ns ts)
    (spelled : ∀ t ∈ ts, ∃ x, t.Spelling x) : ∀ n ∈ ns, n.Writable := by
  induction h with
  | nil => nofun
  | comment _ _ ih => exact ih (List.forall_mem_cons.mp spelled).2
  | @leaf t ns ts single _ ih =>
    obtain ⟨⟨x, first⟩, others⟩ := List.forall_mem_cons.mp spelled
    refine List.forall_mem_cons.mpr ⟨.leaf ⟨x, first⟩ ?_, ih others⟩
    cases first with
    | text => exact .inr rfl
    | selfCloseTag => exact .inl rfl
    | comment => exact absurd rfl single.2.2
    | closeTag => exact absurd rfl single.2.1
    | openTag => exact absurd rfl single.1
  | element opens _ _ _ ihWithin ih =>
    obtain ⟨first, others⟩ := List.forall_mem_cons.mp spelled
    obtain ⟨inside, others⟩ := List.forall_mem_append.mp others
    exact List.forall_mem_cons.mpr
      ⟨.element first opens (ihWithin inside), ih (List.forall_mem_cons.mp others).2⟩

theorem WrittenOpen.writable {ns : List Node} {ts : List Token} (h : WrittenOpen ns ts)
    (spelled : ∀ t ∈ ts, ∃ x, t.Spelling x) : ∀ n ∈ ns, n.Writable := by
  induction h with
  | whole written => exact written.writable spelled
  | unclosed before opens _ ih =>
    obtain ⟨earlier, later⟩ := List.forall_mem_append.mp spelled
    obtain ⟨first, inside⟩ := List.forall_mem_cons.mp later
    refine List.forall_mem_append.mpr ⟨before.writable earlier, ?_⟩
    exact List.forall_mem_cons.mpr ⟨.element first opens (ih inside), nofun⟩

/-- So every tree that has a markup can be expressed: the layout gives a spelling for each of its
tokens. -/
theorem Node.Markup.writable {n : Node} {x : List Char} (h : n.Markup x) : n.Writable := by
  cases h with
  | complete written laid _ =>
    exact written.writable (fun t => laid.exists_spelling) n (List.mem_singleton_self n)
  | unclosed written laid =>
    exact written.writable (fun t => laid.exists_spelling) n (List.mem_singleton_self n)

/-- A comment, to stand between texts. -/
def separator : Token := { kind := .comment, value := "x", position := .start }

/-- The comment that keeps texts apart, as it is written. -/
theorem spelling_separator : separator.Spelling ['<', '!', 'x', '-', '-', '>'] :=
  @Token.Spelling.comment "x" .start 0 (by decide) (by decide) (by decide)

/-- A tree is written in front of whatever is laid out, with a comment behind every text. -/
def Node.Precedes (n : Node) : Prop :=
  ∀ after rest, Layout false after rest →
    ∃ ts x, Written [n] ts ∧ Layout false (ts ++ after) (x ++ rest)

/-- A token without blanks before it, where no text precedes. -/
theorem Layout.cons_apart {t : Token} {ts : List Token} {x rest : List Char} (first : t.Spelling x)
    (others : Layout (t.kind == .text) ts rest) : Layout false (t :: ts) (x ++ rest) :=
  @Layout.cons false t ts [] x rest .nil nofun first others

/-- Trees in a row, written from the last one to the first, each in front of the layout of the
rest. -/
theorem exists_layout_of_precedes {ns : List Node} (each : ∀ n ∈ ns, n.Precedes)
    {after : List Token} {rest : List Char} (following : Layout false after rest) :
    ∃ ts x, Written ns ts ∧ Layout false (ts ++ after) (x ++ rest) := by
  induction ns with
  | nil => exact ⟨[], [], .nil, following⟩
  | cons n ns ih =>
    obtain ⟨first, others⟩ := List.forall_mem_cons.mp each
    obtain ⟨us, y, hus, behind⟩ := ih others
    obtain ⟨ts, x, hts, laid⟩ := first _ _ behind
    refine ⟨ts ++ us, x ++ y, hts.append hus, ?_⟩
    rw [List.append_assoc, List.append_assoc]
    exact laid

/-- Every tree that markup can express has a markup, with a comment behind each of its texts. Two
texts in a row would be read as one. -/
theorem Node.Writable.precedes {n : Node} (h : n.Writable) : n.Precedes := by
  induction h with
  | @leaf t spelled single =>
    intro after rest following
    obtain ⟨x, spelled⟩ := spelled
    have plain : t.kind ≠ .openTag ∧ t.kind ≠ .closeTag ∧ t.kind ≠ .comment := by
      rcases single with hkind | hkind <;> simp [hkind]
    have apart : ∀ afterText, Layout afterText (separator :: after)
        (['<', '!', 'x', '-', '-', '>'] ++ rest) := fun _ =>
      @Layout.cons _ separator _ [] _ rest .nil (fun _ => ⟨rfl, nofun⟩) spelling_separator following
    refine ⟨[t, separator], x ++ ['<', '!', 'x', '-', '-', '>'],
      .leaf plain (.comment rfl .nil), ?_⟩
    rw [List.append_assoc]
    exact .cons_apart spelled (apart _)
  | @element t children spelled opens inside ih =>
    intro after rest following
    obtain ⟨x, spelled⟩ := spelled
    let closer : Token := { kind := .closeTag, value := "", position := .start }
    have closing : closer.Spelling ['<', '/', '>'] :=
      @Token.Spelling.closeTag "" .start [] nofun .nil
    obtain ⟨ts, y, hts, laid⟩ := exists_layout_of_precedes ih (.cons_apart closing following)
    refine ⟨t :: (ts ++ [closer]), x ++ (y ++ ['<', '/', '>']), .element opens rfl hts .nil, ?_⟩
    rw [List.cons_append, List.append_assoc, List.append_assoc, List.append_assoc]
    refine .cons_apart spelled ?_
    rw [opens]
    exact laid

/-! ## The law -/

/-- **Reading inverts writing.** A tree can be written exactly when its nodes are such that markup
can express them, and every way of writing it is read as the tree, up to positions. -/
theorem readTree_of_markup (n : Node) :
    ((∃ x, n.Markup x) ↔ n.Writable) ∧
      ∀ text : String, n.Markup text.toList →
        ∃ m, (readTree text).1 = .ok m ∧ m.unplaced = n.unplaced := by
  refine ⟨⟨fun ⟨x, markup⟩ => markup.writable, ?_⟩, ?_⟩
  · intro writable
    obtain ⟨ts, x, written, laid⟩ := writable.precedes [] [] (.nil .nil nofun)
    rw [List.append_nil] at laid
    exact ⟨_, .complete written laid (.inl rfl)⟩
  · intro text markup
    generalize htext : text.toList = x at markup
    cases markup with
    | complete written laid follows => exact exists_readTree_of_trailer written laid follows htext
    | unclosed written laid =>
      obtain ⟨g, hread, rfl⟩ := Node.read?_of_writtenOpen written
      rw [← htext] at laid
      exact exists_readTree_of_read? hread laid

/-- A text that stands nowhere yet. -/
def plainText (value : String) : Token := { kind := .text, value, position := .start }

/-- An opening tag with a bare attribute and one with a value. -/
def cardTag : Token :=
  .ofTag .openTag "a" [.ofAttribute "b" bareValue, .ofAttribute "c" "1"]

/-- A tree with two texts in a row and with an element at its end. -/
def card : Node :=
  .element cardTag ([.leaf (plainText "hi"), .leaf (plainText "ho "),
    .leaf (.ofTag .selfCloseTag "d"), .element (.ofTag .openTag "e") []] ++
      [.element (.ofTag .openTag "f") []])

/-- The tree with a comment between its texts, a closing tag of another name, and without the two
closing tags at its end. -/
theorem readTree_of_markup_card :
    let text := "<a b c='1'>hi<!x-->ho <d/><e></z ><f>"
    card.Markup text.toList ∧ ∃ m, (readTree text).1 = .ok m ∧ m.unplaced = card.unplaced := by
  intro text
  let closer : Token := { kind := .closeTag, value := "z", position := .start }
  have written : WrittenOpen [card] ([] ++ cardTag :: ([plainText "hi", separator, plainText "ho ",
      .ofTag .selfCloseTag "d", .ofTag .openTag "e", closer] ++ [.ofTag .openTag "f"])) := by
    refine @WrittenOpen.unclosed _ [] _ _ _ .nil rfl (.unclosed ?_ rfl (.whole .nil))
    exact .leaf (by decide) (.comment rfl (.leaf (by decide) (.leaf (by decide)
      (.element rfl rfl .nil .nil))))
  have blank : IsGap [' '] := by
    intro c hc
    rw [List.mem_singleton.mp hc]
    decide
  have tagName : ∀ {name : List Char}, name.all isTagNameChar = true → IsTagName name := by
    intro name hname c hc
    exact isTagNameChar_iff.mp (List.all_eq_true.mp hname c hc)
  have attributeName : ∀ {name : List Char}, name ≠ [] → name.all isAttributeNameChar = true →
      IsAttributeName name := by
    intro name nonempty hname
    exact ⟨nonempty, fun c hc => isAttributeNameChar_iff.mp (List.all_eq_true.mp hname c hc)⟩
  have attributes : AttributesSpelling true [.ofAttribute "b" bareValue,
      .ofAttribute "c" "1"] " b c='1'".toList :=
    .cons blank nofun (.bare (attributeName (by decide) (by decide)))
      (.cons blank nofun (.quoted (attributeName (by decide) (by decide)) (.inr rfl) (by decide))
        (.nil .nil))
  have first : cardTag.Spelling "<a b c='1'>".toList :=
    .openTag ⟨tagName (by decide), by decide, by decide, _, attributes, rfl⟩
  have hi : (plainText "hi").Spelling "hi".toList := .text (c := 'h') rfl (by decide) (by decide)
  have ho : (plainText "ho ").Spelling "ho ".toList := .text (c := 'h') rfl (by decide) (by decide)
  have bare : ∀ name : String, name.toList.all isTagNameChar = true → name.toList ≠ [] →
      name.toList.head? ≠ some '!' → TagSpelling name [] ('<' :: (name.toList ++ [])) := by
    intro name named nonempty notComment
    exact ⟨tagName named, nonempty, notComment, [], .nil .nil, rfl⟩
  have d : (Token.ofTag .selfCloseTag "d").Spelling "<d/>".toList :=
    .selfCloseTag (bare "d" (by decide) (by decide) (by decide))
  have e : (Token.ofTag .openTag "e").Spelling "<e>".toList :=
    .openTag (bare "e" (by decide) (by decide) (by decide))
  have f : (Token.ofTag .openTag "f").Spelling "<f>".toList :=
    .openTag (bare "f" (by decide) (by decide) (by decide))
  have z : closer.Spelling "</z >".toList := .closeTag (tagName (by decide)) blank
  obtain ⟨x, htext, laid⟩ : ∃ x, text.toList = x ∧ Layout false (cardTag :: ([plainText "hi",
      separator, plainText "ho ", .ofTag .selfCloseTag "d", .ofTag .openTag "e", closer] ++
        [.ofTag .openTag "f"])) x := by
    refine ⟨_, ?_, .cons_apart first (.cons_apart hi (.cons .nil
      (fun _ => ⟨rfl, TokenKind.noConfusion⟩) spelling_separator (.cons_apart ho (.cons .nil
        (fun _ => ⟨rfl, TokenKind.noConfusion⟩) d (.cons_apart e (.cons_apart z (.cons_apart f
          (.nil .nil Bool.noConfusion))))))))⟩
    decide
  have markup : card.Markup text.toList := by
    rw [htext]
    exact .unclosed written laid
  exact ⟨markup, (readTree_of_markup card).2 text markup⟩

end Wxml
