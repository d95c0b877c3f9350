import Mathlib.Data.List.Chain
import Wxml.Proofs.OutputText
import Wxml.Proofs.SiblingChains
import Wxml.Proofs.TreeTokens

/-!
# Code that reads back

Without directives the code of a tree is markup itself: every element is written with its tags, and
nothing stands around it. `Token.printed` says what a token has become there. Reading the code gives
back the tree with printed tokens, provided that what is printed can stand where it stands
(`Node.Printable`).

The proof makes a layout out of the code. The code of a node is laid out in front of anything that
can follow it; only a text restricts what follows, and only by not standing in front of another
text. So the layouts of siblings are put together from the last to the first, with the closing tag
of the element around them as what follows the last one.

**Not established**: the converse, that only the code of printable nodes reads back, and anything
about what code with directives is read as.
-/

namespace Wxml

open Wxml.Text

/-! ## What is printed -/

/-- An attribute as the code has it. -/
def Token.printedAttribute (t : Token) : Token :=
  { t with value := (Role.ofName t.value).outputName t.value, rawValue := some t.expression }

/-- A token as the code has it. -/
def Token.printed (t : Token) : Token :=
  match t.kind with
  | .openTag =>
    { t with
      value := camelCase t.value
      attributes := t.attributes.map (·.map Token.printedAttribute) }
  | .selfCloseTag =>
    { t with
      value := firstUpper t.value
      attributes := t.attributes.map (·.map Token.printedAttribute) }
  | .text => { t with value := normalizeText t.value }
  | _ => t

/-- The names of the attributes that are directives. -/
def directiveNames : List String := ["wx:if", "wx:elseif", "wx:elif", "wx:else", "wx:for"]

/-- **A node whose code is markup**: it has no directives, what is printed between double quotes
holds none, an element keeps a name that can open a tag, and no two texts inside it would become
one. -/
structure Node.Printable (n : Node) : Prop where
  plain : ∀ a ∈ n.token.attributes.getD [], a.value ∉ directiveNames
  unquoted : ∀ a ∈ n.token.attributes.getD [], '"' ∉ a.expression.toList
  named : n.token.kind = .openTag →
    (camelCase n.token.value).toList ≠ [] ∧ (camelCase n.token.value).toList.head? ≠ some '!'
  apart : n.inside.IsChain fun m k => ¬ (m.token.kind = .text ∧ k.token.kind = .text)

instance (n : Node) : Decidable n.Printable :=
  decidable_of_iff
    ((∀ a ∈ n.token.attributes.getD [], a.value ∉ directiveNames) ∧
      (∀ a ∈ n.token.attributes.getD [], '"' ∉ a.expression.toList) ∧
      (n.token.kind = .openTag →
        (camelCase n.token.value).toList ≠ [] ∧ (camelCase n.token.value).toList.head? ≠ some '!') ∧
      n.inside.IsChain fun m k => ¬ (m.token.kind = .text ∧ k.token.kind = .text))
    ⟨fun ⟨plain, unquoted, named, apart⟩ => ⟨plain, unquoted, named, apart⟩,
      fun ⟨plain, unquoted, named, apart⟩ => ⟨plain, unquoted, named, apart⟩⟩

/-! ## Without directives -/

/-- An attribute with another name is no directive. The names are the only thing that is looked
at. -/
theorem Token.directive?_eq_none {t : Token} (h : t.value ∉ directiveNames) :
    t.directive? = none := by
  simp only [directiveNames, List.mem_cons, List.not_mem_nil, or_false, not_or] at h
  obtain ⟨hif, helseif, helif, helse, hfor⟩ := h
  rw [Token.directive?, Role.ofName, if_neg hif, if_neg helseif, if_neg helif, if_neg helse,
    if_neg hfor]
  split
  · rfl
  · split <;> rfl

namespace Node.Printable

variable {n : Node}

/-- A printable node has no directives at all. -/
theorem directives_eq_nil (h : n.Printable) : n.token.directives = [] := by
  rw [Token.directives]
  split
  · apply List.filterMap_eq_nil_iff.mpr
    intro a ha
    exact Token.directive?_eq_none (h.plain a ha)
  · rfl

theorem branches_eq_nil (h : n.Printable) : n.token.branches = [] := by
  rw [Token.branches, h.directives_eq_nil]
  rfl

/-- Nothing stands around the code of the element: it is its tag around the code of what is
inside. -/
theorem rendering_eq (h : n.Printable) :
    n.rendering = n.token.body (Node.renderingAll n.inside) := by
  rw [Node.rendering_eq, Token.enclosed, Token.repeated, h.branches_eq_nil, Token.loops,
    h.directives_eq_nil]
  rfl

end Node.Printable

/-! ## The tags -/

/-- The code of an attribute: one blank, the output name, and the expression between double
quotes. -/
theorem Token.toList_inlineText (t : Token) : t.inlineText.toList = [' '] ++
    (((Role.ofName t.value).outputName t.value).toList ++
      '=' :: '"' :: (t.expression.toList ++ ['"'])) := by
  simp [Token.inlineText]

/-- The attribute that an inline text is read as. -/
def Token.inlined (t : Token) : Token :=
  .ofAttribute ((Role.ofName t.value).outputName t.value) t.expression t.position

/-- Inline texts in a row spell the attributes that they are read as. Each starts with a blank, so
that the first may follow anything. -/
theorem attributesSpelling_inlined {as : List Token}
    (named : ∀ a ∈ as, IsAttributeName a.value.toList)
    (unquoted : ∀ a ∈ as, '"' ∉ a.expression.toList) (apart : Bool) :
    AttributesSpelling apart (as.map Token.inlined)
      (String.join (as.map Token.inlineText)).toList := by
  induction as generalizing apart with
  | nil => exact .nil .nil
  | cons a as ih =>
    obtain ⟨hname, hnames⟩ := List.forall_mem_cons.mp named
    obtain ⟨hquote, hquotes⟩ := List.forall_mem_cons.mp unquoted
    rw [List.map_cons, List.map_cons, String.join_cons, String.toList_append,
      Token.toList_inlineText]
    refine .cons ?_ (fun _ => List.cons_ne_nil _ _) (.quoted hname.outputName (.inl rfl) hquote)
      (ih hnames hquotes false)
    intro c hc
    rw [List.mem_singleton.mp hc]
    decide

/-- An attribute that can be written is printed as its inline text is read. Such an attribute has a
value and no attributes of its own, so nothing of it gets lost. -/
theorem AttributeSpelling.printedAttribute_eq {t : Token} {bare : Bool} {x : List Char}
    (h : AttributeSpelling t bare x) : t.printedAttribute = t.inlined := by
  cases h <;> rfl

/-- The inline text of attributes spells the attributes that are printed, if none of them is a
directive and no value holds a double quote. -/
theorem AttributesSpelling.printed {apart : Bool} {as : List Token} {x : List Char}
    (h : AttributesSpelling apart as x) (plain : ∀ a ∈ as, a.value ∉ directiveNames)
    (unquoted : ∀ a ∈ as, '"' ∉ a.expression.toList) (apart' : Bool) :
    AttributesSpelling apart' (as.map Token.printedAttribute) (inlineTexts as).toList := by
  have hall : as.filter (·.directive?.isNone) = as := by
    refine List.filter_eq_self.mpr ?_
    intro a ha
    rw [Token.directive?_eq_none (plain a ha)]
    rfl
  have hprinted : as.map Token.printedAttribute = as.map Token.inlined := by
    refine List.map_congr_left ?_
    intro a ha
    obtain ⟨bare, y, spelled⟩ := h.exists_spelling ha
    exact spelled.printedAttribute_eq
  have named : ∀ a ∈ as, IsAttributeName a.value.toList := by
    intro a ha
    obtain ⟨bare, y, spelled⟩ := h.exists_spelling ha
    exact spelled.named
  rw [inlineTexts, hall, hprinted]
  exact attributesSpelling_inlined named unquoted apart'

/-- The code of a self-closing tag. What could stand inside it is not written. -/
theorem Token.toList_body_selfClose {t : Token} (h : t.kind = .selfCloseTag) (inside : String) :
    (t.body inside).toList = '<' :: ((firstUpper t.value).toList ++
      (inlineTexts (t.attributes.getD [])).toList) ++ ['/', '>'] := by
  simp [Token.body, h]

/-- The code of an element: an opening tag, what is inside, and a closing tag with the printed name.
The name that the source's closing tag had does not matter. -/
theorem Token.toList_body_open {t : Token} (h : t.kind = .openTag) (inside : String) :
    (t.body inside).toList = ('<' :: ((camelCase t.value).toList ++
      (inlineTexts (t.attributes.getD [])).toList) ++ ['>']) ++ (inside.toList ++
        '<' :: '/' :: ((camelCase t.value).toList ++ ([] ++ ['>']))) := by
  simp [Token.body, h]

/-- A printed tag is a legal one, under any legal name that can open a tag. The name and the
attributes are changed independently. -/
theorem TagSpelling.printed {name name' : String} {as : List Token} {x : List Char}
    (h : TagSpelling name as x) (plain : ∀ a ∈ as, a.value ∉ directiveNames)
    (unquoted : ∀ a ∈ as, '"' ∉ a.expression.toList) (named : IsTagName name'.toList)
    (nonempty : name'.toList ≠ []) (notComment : name'.toList.head? ≠ some '!') :
    TagSpelling name' (as.map Token.printedAttribute)
      ('<' :: (name'.toList ++ (inlineTexts as).toList)) := by
  obtain ⟨y, attributes, -⟩ := h.written
  exact ⟨named, nonempty, notComment, _, attributes.printed plain unquoted true, rfl⟩

/-! ## The layout of the code -/

/-- Code has no blanks between tokens, so the condition on blanks behind a text is met. -/
theorem Layout.cons_tight {afterText : Bool} {t : Token} {ts : List Token} {x rest : List Char}
    (tight : afterText = true → t.kind ≠ .text) (first : t.Spelling x)
    (others : Layout (t.kind == .text) ts rest) : Layout afterText (t :: ts) (x ++ rest) :=
  @Layout.cons afterText t ts [] x rest .nil (fun hafter => ⟨rfl, tight hafter⟩) first others

/-- A node that a document can hold and whose code is markup. -/
structure Node.Legal (n : Node) : Prop where
  spelled : ∃ x, n.token.Spelling x
  notComment : n.token.kind ≠ .comment
  notCloser : n.token.kind ≠ .closeTag
  printable : n.Printable

/-- The code of a node is laid out in front of everything that can follow it, and behind everything
that it can follow. -/
def Node.LaidOut (n : Node) : Prop :=
  ∀ after rest, Layout (n.token.kind == .text) after rest →
    ∃ ts, Written [n.mapTokens Token.printed] ts ∧
      ∀ afterText, (afterText = true → n.token.kind ≠ .text) →
        Layout afterText (ts ++ after) (n.rendering.toList ++ rest)

/-- The code of some siblings is laid out before whatever can follow a text. The induction goes from
the last sibling to the first, since each one asks for what follows it. -/
theorem exists_layout_renderingAll {ns : List Node} (each : ∀ n ∈ ns, n.LaidOut)
    (apart : ns.IsChain fun m k => ¬ (m.token.kind = .text ∧ k.token.kind = .text))
    {after : List Token} {rest : List Char} (following : ∀ afterText, Layout afterText after rest) :
    ∃ ts, Written (ns.map (Node.mapTokens Token.printed)) ts ∧
      ∀ afterText, (afterText = true → ∀ n ∈ ns.head?, n.token.kind ≠ .text) →
        Layout afterText (ts ++ after) ((Node.renderingAll ns).toList ++ rest) := by
  -- what follows the first sibling is the layout of the others, and they may start with a text only
  -- if the first is none
  induction ns with
  | nil => exact ⟨[], .nil, fun afterText _ => following afterText⟩
  | cons n ns ih =>
    obtain ⟨hn, hns⟩ := List.forall_mem_cons.mp each
    obtain ⟨hnext, hapart⟩ := List.isChain_cons.mp apart
    obtain ⟨us, hus, behind⟩ := ih hns hapart
    have hbehind : Layout (n.token.kind == .text) (us ++ after)
        ((Node.renderingAll ns).toList ++ rest) := by
      apply behind
      intro htext m hm hm'
      exact hnext m hm ⟨by simpa using htext, hm'⟩
    obtain ⟨ts, hts, laid⟩ := hn _ _ hbehind
    refine ⟨ts ++ us, hts.append hus, fun afterText hfirst => ?_⟩
    rw [Node.renderingAll, String.toList_append, List.append_assoc, List.append_assoc]
    exact laid afterText fun hafter => hfirst hafter n rfl

/-- A leaf is laid out as one token. A text keeps its first character, which is no blank, and gets
no `<` that it did not have. -/
theorem Node.Legal.laidOut_leaf {t : Token} (h : (Node.leaf t).Legal) (hopen : t.kind ≠ .openTag) :
    (Node.leaf t).LaidOut := by
  intro after rest following
  rw [h.printable.rendering_eq]
  obtain ⟨x, spelled⟩ := h.spelled
  cases spelled with
  | @text value position c starts dark plain =>
    refine ⟨[_], .leaf ⟨nofun, nofun, nofun⟩ .nil, fun afterText tight => ?_⟩
    exact .cons_tight tight (.text (head?_normalizeText starts dark) dark fun hmem =>
      plain (mem_of_mem_normalizeText hmem)) following
  | comment => exact absurd rfl h.notComment
  | closeTag => exact absurd rfl h.notCloser
  | openTag => exact absurd rfl hopen
  | @selfCloseTag value position as y tag =>
    refine ⟨[_], .leaf ⟨nofun, nofun, nofun⟩ .nil, fun afterText tight => ?_⟩
    rw [Token.toList_body_selfClose rfl]
    have printed := tag.printed h.printable.plain h.printable.unquoted tag.named.firstUpper
      (firstUpper_ne_nil tag.nonempty) (head?_firstUpper tag.notComment)
    exact .cons_tight tight (.selfCloseTag printed) following

/-- An element is laid out as its opening tag, its children and its closing tag. The closing tag can
follow a text, so that the children may end in one. -/
theorem Node.Legal.laidOut_element {t : Token} {children : List Node}
    (h : (Node.element t children).Legal) (hopen : t.kind = .openTag)
    (inside : ∀ n ∈ children, n.LaidOut) : (Node.element t children).LaidOut := by
  intro after rest following
  rw [h.printable.rendering_eq]
  obtain ⟨nonempty, notComment⟩ := h.printable.named hopen
  obtain ⟨x, spelled⟩ := h.spelled
  cases spelled with
  | text => cases hopen
  | comment => cases hopen
  | closeTag => cases hopen
  | selfCloseTag => cases hopen
  | @openTag value position as y tag =>
    have named : IsTagName (camelCase value).toList := tag.named.camelCase
    let closer : Token := { kind := .closeTag, value := camelCase value, position := .start }
    have behind : ∀ afterText, Layout afterText (closer :: after)
        ('<' :: '/' :: ((camelCase value).toList ++ ([] ++ ['>'])) ++ rest) :=
      fun _ => .cons_tight nofun (.closeTag named .nil) following
    obtain ⟨ts, hts, laid⟩ := exists_layout_renderingAll inside h.printable.apart behind
    rw [← Node.mapTokensAll_eq_map] at hts
    let t : Token := { kind := .openTag, value, position, attributes := some as }
    have written : Written [(Node.element t children).mapTokens Token.printed]
        (t.printed :: (ts ++ [closer])) := .element rfl rfl hts .nil
    refine ⟨_, written, fun afterText _ => ?_⟩
    show Layout afterText (t.printed :: (ts ++ [closer] ++ after)) _
    rw [Token.toList_body_open rfl, List.append_assoc ts, List.append_assoc _ _ rest,
      List.append_assoc _ _ rest]
    have printed := tag.printed h.printable.plain h.printable.unquoted named nonempty notComment
    exact .cons_tight nofun (.openTag printed) (laid false nofun)

/-- Every node that a document gives is laid out, if it and all nodes below it can be printed. The
induction is on how the node was built. -/
theorem Node.Built.laidOut {n : Node} (h : n.Built) (legal : ∀ d ∈ n :: n.descendants, d.Legal) :
    n.LaidOut := by
  induction h with
  | leaf plain => exact (legal _ List.mem_cons_self).laidOut_leaf plain
  | element opens inside ih =>
    refine (legal _ List.mem_cons_self).laidOut_element opens fun n hn => ih n hn ?_
    exact Node.forall_inside legal hn

/-! ## The law -/

/-- **Code reads back.** The code of a document's tree, if all its nodes can be printed, is read as
that tree with printed tokens. -/
theorem readTree_generateRoot {text : String} {root : Node} (parsed : (readTree text).1 = .ok root)
    (notCloser : root.token.kind ≠ .closeTag)
    (printable : ∀ n ∈ root :: root.descendants, n.Printable) :
    ∃ n, (readTree (root.generateRoot {}).code).1 = .ok n ∧
      n.unplaced = (root.mapTokens Token.printed).unplaced := by
  obtain ⟨ts, hscan, htokens⟩ := readTree_eq_ok_iff.mp parsed
  have built := Node.built_of_ofTokens htokens
  obtain ⟨g, hread, rfl⟩ := Node.ofTokens_eq_ok_iff.mp htokens
  have legal : ∀ d ∈ g.node :: g.node.descendants, d.Legal := by
    intro d hd
    obtain ⟨hmem, hcomment, hcloser⟩ := Node.token_of_read? hread hd
    refine ⟨(Token.layout_of_scan hscan).exists_spelling hmem, hcomment, ?_, printable d hd⟩
    intro hkind
    rw [hcloser hkind] at hkind
    exact notCloser hkind
  have hcode : (g.node.generateRoot {}).code = g.node.rendering :=
    (built.generate_of_free (fun d hd => (printable d hd).branches_eq_nil) {}).1
  obtain ⟨us, written, laid⟩ := built.laidOut legal [] [] (.nil .nil fun _ => rfl)
  have hlaid := laid false nofun
  rw [List.append_nil, List.append_nil] at hlaid
  rw [hcode]
  exact exists_readTree_of_layout written hlaid

/-- A document with each kind of token and attribute, and with a closing tag of another name. -/
def menu : String :=
  "<!-- menu --><list-item bindtap='\x7b\x7bopen\x7d\x7d' wx:key=\"id\" hidden>" ++
    "Hi \x7b\x7bname\x7d\x7d\n  there<my-icon/><b>!</i></list-item>"

/-- The document `menu` is one of those that the law speaks about. -/
theorem readTree_generateRoot_menu : ∃ root, (readTree menu).1 = .ok root ∧
    root.token.kind ≠ .closeTag ∧ (∀ n ∈ root :: root.descendants, n.Printable) ∧
    ∃ n, (readTree (root.generateRoot {}).code).1 = .ok n ∧
      n.unplaced = (root.mapTokens Token.printed).unplaced := by
  have checked : (match (readTree menu).1 with
      | .ok root =>
        decide (root.token.kind ≠ .closeTag ∧ ∀ n ∈ root :: root.descendants, n.Printable)
      | .error _ => false) = true := by decide +kernel
  cases parsed : (readTree menu).1 with
  | error e =>
    rw [parsed] at checked
    cases checked
  | ok root =>
    rw [parsed] at checked
    obtain ⟨notCloser, printable⟩ := of_decide_eq_true checked
    exact ⟨root, rfl, notCloser, printable, readTree_generateRoot parsed notCloser printable⟩

end Wxml
