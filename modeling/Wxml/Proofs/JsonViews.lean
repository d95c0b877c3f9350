import Wxml.Proofs.JsonReader
import Wxml.Proofs.TreeTokens

/-!
# Tokens and trees from JSON

Tokens and trees are shown as objects, field by field. Here they are built again from the fields:
`Token.ofJson?` and `Node.ofJson?` ask an object for each field by its name, in no order. Some
fields may be missing, and that says something: a token without the field has no list of attributes,
one with an empty list has the list; likewise for what is inside a node.

One field is shown for attributes only: the raw value. So only attributes may have one
(`Token.RawInAttributes`), which holds of everything that is read from a document.

**The law** (`views_read_back`): the text of some tokens, or of a tree, is read and built again to
the very same tokens, or tree.

**Not established**: anything about values that show no token. `ofJson?` may also accept objects
with further fields, or with the fields in another order.
-/

namespace Wxml

/-! ## Building again -/

namespace Json

/-- The text that a value is. -/
def text? : Json → Option String
  | str s => some s
  | _ => none

/-- The number that a value is. -/
def int? : Json → Option Int
  | int n => some n
  | _ => none

/-- The text that a value is, or the absence of one. -/
def textOrNull? : Json → Option (Option String)
  | null => some none
  | str s => some (some s)
  | _ => none

end Json

/-- The kind, the value and the position among some fields. -/
def Token.plainOfFields? (fields : List (String × Json)) :
    Option (TokenKind × String × Position) := do
  let kind ← (fields.lookup "kind").bind Json.text?
  let kind ← TokenKind.ofLabel? kind
  let value ← (fields.lookup "value").bind Json.text?
  let line ← (fields.lookup "line").bind Json.int?
  let column ← (fields.lookup "column").bind Json.int?
  let offset ← (fields.lookup "offset").bind Json.int?
  return (kind, value, ⟨line, column, offset⟩)

/-- The raw value among some fields. It is absent where there is no such field. -/
def Token.rawOfFields? (fields : List (String × Json)) : Option (Option String) :=
  match fields.lookup "raw_value" with
  | some v => v.textOrNull?
  | none => some none

mutual

/-- The token that a value shows. -/
def Token.ofJson? : Json → Option Token
  | .obj fields =>
    (Token.plainOfFields? fields).bind fun plain =>
      (Token.rawOfFields? fields).bind fun raw =>
        (Token.attributesOfFields? fields).map fun attributes =>
          ⟨plain.1, plain.2.1, plain.2.2, raw, attributes⟩
  | _ => none

/-- The attributes among some fields. There is no list of them where there is no such field. -/
def Token.attributesOfFields? : List (String × Json) → Option (Option (List Token))
  | [] => some none
  | (name, v) :: fields =>
    if name = "attributes" then (Token.arrayOfJson? v).map some
    else Token.attributesOfFields? fields

/-- The tokens that an array shows. -/
def Token.arrayOfJson? : Json → Option (List Token)
  | .arr items => Token.listOfJson? items
  | _ => none

/-- The tokens that some values show. -/
def Token.listOfJson? : List Json → Option (List Token)
  | [] => some []
  | v :: vs => (Token.ofJson? v).bind fun t => (Token.listOfJson? vs).map fun ts => t :: ts

end

mutual

/-- The tree that a value shows. -/
def Node.ofJson? : Json → Option Node
  | .obj fields =>
    (Token.ofJson? (.obj fields)).bind fun t =>
      (Node.childrenOfFields? fields).map fun children =>
        match children with
        | none => .leaf t
        | some ns => .element t ns
  | _ => none

/-- The nodes inside a node among some fields. There can be none where there is no such field. -/
def Node.childrenOfFields? : List (String × Json) → Option (Option (List Node))
  | [] => some none
  | (name, v) :: fields =>
    if name = "children" then (Node.arrayOfJson? v).map some
    else Node.childrenOfFields? fields

/-- The trees that an array shows. -/
def Node.arrayOfJson? : Json → Option (List Node)
  | .arr items => Node.listOfJson? items
  | _ => none

/-- The trees that some values show. -/
def Node.listOfJson? : List Json → Option (List Node)
  | [] => some []
  | v :: vs => (Node.ofJson? v).bind fun n => (Node.listOfJson? vs).map fun ns => n :: ns

end

/-! ## Tokens -/

/-- Only attributes have a raw value, among a token and its attributes at any depth. -/
inductive Token.RawInAttributes : Token → Prop
  | plain {kind : TokenKind} {value : String} {position : Position} {raw : Option String}
      (own : raw ≠ none → kind = .attribute) : RawInAttributes ⟨kind, value, position, raw, none⟩
  | tag {kind : TokenKind} {value : String} {position : Position} {raw : Option String}
      {attributes : List Token} (own : raw ≠ none → kind = .attribute)
      (nested : ∀ a ∈ attributes, RawInAttributes a) :
      RawInAttributes ⟨kind, value, position, raw, some attributes⟩

section Fields

variable {kind : TokenKind} {value : String} {position : Position} {raw : Option String}
  {attributes : Option (List Token)} {more : List (String × Json)}

/-- The fields that every token has are found again, whatever fields follow them. -/
theorem Token.plainOfFields?_jsonFields :
    Token.plainOfFields? (Token.jsonFields ⟨kind, value, position, raw, attributes⟩ ++ more) =
      some (kind, value, position) := by
  rw [Token.jsonFields]
  simp [Token.plainOfFields?, List.lookup_cons, Json.text?, Json.int?]

/-- The raw value is shown where a token may have one. -/
theorem Token.rawOfFields?_jsonFields (own : raw ≠ none → kind = .attribute)
    (others : ∀ f ∈ more, f.1 = "children") :
    Token.rawOfFields? (Token.jsonFields ⟨kind, value, position, raw, attributes⟩ ++ more) =
      some raw := by
  have hmore : more.lookup "raw_value" = none := by
    rw [List.lookup_eq_none_iff]
    intro f hf
    rw [others f hf]
    rfl
  have hattributes : (Token.attributeField attributes ++ more).lookup "raw_value" = none := by
    cases attributes with
    | none =>
      rw [Token.attributeField]
      exact hmore
    | some ts =>
      rw [Token.attributeField]
      exact hmore
  rw [Token.jsonFields, List.append_assoc, List.append_assoc]
  by_cases hkind : kind = .attribute
  · rw [if_pos hkind]
    cases raw <;> rfl
  · have habsent : raw = none := Decidable.byContradiction fun h => hkind (own h)
    rw [if_neg hkind, habsent, Token.rawOfFields?]
    show (match (Token.attributeField attributes ++ more).lookup "raw_value" with
      | some v => v.textOrNull?
      | none => some none) = _
    rw [hattributes]

/-- Fields with other names do not matter to a search for attributes. -/
theorem Token.attributesOfFields?_append {fields : List (String × Json)}
    (others : ∀ f ∈ fields, f.1 ≠ "attributes") (more : List (String × Json)) :
    Token.attributesOfFields? (fields ++ more) = Token.attributesOfFields? more := by
  induction fields with
  | nil => rfl
  | cons f fields ih =>
    obtain ⟨name, v⟩ := f
    have hname : name ≠ "attributes" := others (name, v) List.mem_cons_self
    rw [List.cons_append, Token.attributesOfFields?, if_neg hname]
    exact ih fun f hf => others f (List.mem_cons_of_mem _ hf)

theorem Node.childrenOfFields?_append {fields : List (String × Json)}
    (others : ∀ f ∈ fields, f.1 ≠ "children") (more : List (String × Json)) :
    Node.childrenOfFields? (fields ++ more) = Node.childrenOfFields? more := by
  induction fields with
  | nil => rfl
  | cons f fields ih =>
    obtain ⟨name, v⟩ := f
    have hname : name ≠ "children" := others (name, v) List.mem_cons_self
    rw [List.cons_append, Node.childrenOfFields?, if_neg hname]
    exact ih fun f hf => others f (List.mem_cons_of_mem _ hf)

/-- The list of attributes is shown where there is one, also an empty one, and can be told from
none. -/
theorem Token.attributesOfFields?_jsonFields (others : ∀ f ∈ more, f.1 = "children") :
    Token.attributesOfFields? (Token.jsonFields ⟨kind, value, position, raw, attributes⟩ ++ more) =
      (attributes.elim (some none) fun ts => (Token.listOfJson? (Token.jsonList ts)).map some) := by
  rw [Token.jsonFields, List.append_assoc, Token.attributesOfFields?_append]
  · cases attributes with
    | none =>
      have hmore : ∀ f ∈ more, f.1 ≠ "attributes" := by
        intro f hf
        rw [others f hf]
        decide
      have hnone := Token.attributesOfFields?_append hmore []
      rw [List.append_nil, Token.attributesOfFields?] at hnone
      rw [Token.attributeField]
      exact hnone
    | some ts =>
      rw [Token.attributeField, List.cons_append, Token.attributesOfFields?, if_pos rfl,
        Token.arrayOfJson?]
      rfl
  · by_cases hkind : kind = .attribute
    · simp [hkind]
    · simp [hkind]

end Fields

/-- A token has no field for what is inside a node, so that the two can stand in one object. -/
theorem Token.ne_children_of_mem_jsonFields (t : Token) : ∀ f ∈ t.jsonFields, f.1 ≠ "children" := by
  obtain ⟨kind, value, position, raw, attributes⟩ := t
  rw [Token.jsonFields]
  by_cases hkind : kind = .attribute
  · cases attributes <;> simp [hkind, Token.attributeField]
  · cases attributes <;> simp [hkind, Token.attributeField]

/-- Tokens are built again one by one, if each of them is. For attributes this is the hypothesis of
an induction. -/
theorem Token.listOfJson?_jsonList {ts : List Token}
    (h : ∀ t ∈ ts, Token.ofJson? (.obj t.jsonFields) = some t) :
    Token.listOfJson? (Token.jsonList ts) = some ts := by
  induction ts with
  | nil => rw [Token.jsonList, Token.listOfJson?]
  | cons t ts ih =>
    rw [Token.jsonList, Token.listOfJson?, h t List.mem_cons_self,
      ih fun u hu => h u (List.mem_cons_of_mem _ hu)]
    rfl

/-- **A token is built again from its fields**, also when what is inside a node stands behind
them. -/
theorem Token.RawInAttributes.ofJson?_jsonFields {t : Token} (h : t.RawInAttributes)
    {more : List (String × Json)} (others : ∀ f ∈ more, f.1 = "children") :
    Token.ofJson? (.obj (t.jsonFields ++ more)) = some t := by
  induction h generalizing more with
  | plain own =>
    rw [Token.ofJson?, Token.plainOfFields?_jsonFields, Token.rawOfFields?_jsonFields own others,
      Token.attributesOfFields?_jsonFields others]
    rfl
  | tag own nested ih =>
    have hattributes := Token.listOfJson?_jsonList fun a ha => by
      have built := ih a ha (List.forall_mem_nil _)
      rwa [List.append_nil] at built
    rw [Token.ofJson?, Token.plainOfFields?_jsonFields, Token.rawOfFields?_jsonFields own others,
      Token.attributesOfFields?_jsonFields others, Option.elim_some, hattributes]
    rfl

/-! ## Trees -/

mutual

/-- **A tree is built again from its objects.** A leaf has no field for what is inside it, an
element has one that may be empty, so that the two can be told apart. -/
theorem Node.ofJson?_json (n : Node) (h : ∀ d ∈ n :: n.descendants, d.token.RawInAttributes) :
    Node.ofJson? n.json = some n := by
  cases n with
  | leaf t =>
    have own : t.RawInAttributes := h _ List.mem_cons_self
    have built := own.ofJson?_jsonFields (List.forall_mem_nil _)
    have alone := Node.childrenOfFields?_append t.ne_children_of_mem_jsonFields []
    rw [List.append_nil] at built alone
    rw [Node.json, Node.ofJson?, built, Option.bind_some, alone, Node.childrenOfFields?]
    rfl
  | element t children =>
    have own : t.RawInAttributes := h _ List.mem_cons_self
    have inside := Node.listOfJson?_jsonList children fun d hd => h d (List.mem_cons_of_mem _ hd)
    have named : ∀ f ∈ [("children", Json.arr (Node.jsonList children))], f.1 = "children" :=
      fun f hf => by rw [List.mem_singleton.mp hf]
    have built := own.ofJson?_jsonFields named
    rw [Node.json, Node.ofJson?, built, Option.bind_some,
      Node.childrenOfFields?_append t.ne_children_of_mem_jsonFields, Node.childrenOfFields?,
      if_pos rfl, Node.arrayOfJson?, inside]
    rfl

theorem Node.listOfJson?_jsonList (ns : List Node)
    (h : ∀ d ∈ Node.withDescendants ns, d.token.RawInAttributes) :
    Node.listOfJson? (Node.jsonList ns) = some ns := by
  cases ns with
  | nil => rw [Node.jsonList, Node.listOfJson?]
  | cons n ns =>
    rw [Node.withDescendants, ← List.cons_append] at h
    have first := Node.ofJson?_json n fun d hd => h d (List.mem_append_left _ hd)
    have others := Node.listOfJson?_jsonList ns fun d hd => h d (List.mem_append_right _ hd)
    rw [Node.jsonList, Node.listOfJson?, first, others]
    rfl

end

/-! ## Documents -/

/-- The attributes of a tag that can be written: each is an attribute and has no attributes of its
own. -/
theorem AttributesSpelling.rawInAttributes {apart : Bool} {as : List Token} {x : List Char}
    (h : AttributesSpelling apart as x) : ∀ a ∈ as, a.RawInAttributes := by
  induction h with
  | nil => exact List.forall_mem_nil _
  | cons _ _ first _ ih =>
    refine List.forall_mem_cons.mpr ⟨?_, ih⟩
    cases first with
    | bare => exact .plain fun _ => rfl
    | quoted => exact .plain fun _ => rfl

/-- What can be written in a document has raw values in attributes only. -/
theorem Token.Spelling.rawInAttributes {t : Token} {x : List Char} (h : t.Spelling x) :
    t.RawInAttributes := by
  cases h with
  | text => exact .plain fun absent => absurd rfl absent
  | comment => exact .plain fun absent => absurd rfl absent
  | closeTag => exact .plain fun absent => absurd rfl absent
  | openTag tag =>
    obtain ⟨y, attributes, -⟩ := tag.written
    exact .tag (fun absent => absurd rfl absent) attributes.rawInAttributes
  | selfCloseTag tag =>
    obtain ⟨y, attributes, -⟩ := tag.written
    exact .tag (fun absent => absurd rfl absent) attributes.rawInAttributes

/-- So do the tokens of a document, each of which has a spelling in it. -/
theorem rawInAttributes_of_scan {text : String} {ts : List Token} (h : Token.scan text = .ok ts) :
    ∀ t ∈ ts, t.RawInAttributes := by
  intro t ht
  obtain ⟨y, spelled⟩ := (Token.layout_of_scan h).exists_spelling ht
  exact spelled.rawInAttributes

/-- So do the tokens of its tree, which are among them. -/
theorem rawInAttributes_of_readTree {text : String} {root : Node}
    (h : (readTree text).1 = .ok root) :
    ∀ d ∈ root :: root.descendants, d.token.RawInAttributes := by
  obtain ⟨ts, hscan, htokens⟩ := readTree_eq_ok_iff.mp h
  obtain ⟨g, hread, rfl⟩ := Node.ofTokens_eq_ok_iff.mp htokens
  intro d hd
  exact rawInAttributes_of_scan hscan d.token (Node.token_of_read? hread hd).1

/-- **What is shown is not lost.** Tokens that have raw values in attributes only are shown by a
text that a reader of JSON takes back to the same tokens, and so are trees of such tokens. The
tokens and the tree of every document are among them. -/
theorem views_read_back :
    (∀ ts : List Token, (∀ t ∈ ts, t.RawInAttributes) →
      (Json.read (Json.arr (Token.jsonList ts)).render).bind Token.arrayOfJson? = some ts) ∧
    (∀ n : Node, (∀ d ∈ n :: n.descendants, d.token.RawInAttributes) →
      (Json.read n.json.render).bind Node.ofJson? = some n) ∧
    (∀ text ts, Token.scan text = .ok ts → ∀ t ∈ ts, t.RawInAttributes) ∧
    ∀ text root, (readTree text).1 = .ok root →
      ∀ d ∈ root :: root.descendants, d.token.RawInAttributes := by
  refine ⟨?_, ?_, fun _ _ => rawInAttributes_of_scan, fun _ _ => rawInAttributes_of_readTree⟩
  · intro ts h
    have built := Token.listOfJson?_jsonList fun t ht => by
      have built := (h t ht).ofJson?_jsonFields (List.forall_mem_nil _)
      rwa [List.append_nil] at built
    rw [Json.read_render, Option.bind_some, Token.arrayOfJson?]
    exact built
  · intro n h
    rw [Json.read_render, Option.bind_some]
    exact n.ofJson?_json h

/-- A tag with two attributes, one of them without a value, and characters that JSON escapes. -/
def escapedTag : Token :=
  ⟨.openTag, "日\"\\", ⟨-1, 10, 0⟩, none,
    some [⟨.attribute, "\n\x01", .start, none, none⟩,
      ⟨.attribute, "b", .start, some "\t", some []⟩]⟩

/-- The tag around an element with nothing inside and a text that can have nothing inside. -/
def escapedTree : Node :=
  .element escapedTag [.element ⟨.selfCloseTag, "", .start, none, some []⟩ [],
    .leaf ⟨.text, "\r/", .start, none, none⟩]

/-- Tokens that no document has, with characters that are escaped in each of the ways of the
writer. -/
theorem escapedTree_reads_back :
    (∀ d ∈ escapedTree :: escapedTree.descendants, d.token.RawInAttributes) ∧
      (Json.read (Json.arr (Token.jsonList [escapedTag])).render).bind Token.arrayOfJson? =
        some [escapedTag] ∧
      (Json.read escapedTree.json.render).bind Node.ofJson? = some escapedTree := by
  have tag : escapedTag.RawInAttributes := by
    refine .tag (fun absent => absurd rfl absent) ?_
    refine List.forall_mem_cons.mpr ⟨.plain fun _ => rfl, List.forall_mem_cons.mpr ⟨?_, ?_⟩⟩
    · exact .tag (fun _ => rfl) (List.forall_mem_nil _)
    · exact List.forall_mem_nil _
  have tree : ∀ d ∈ escapedTree :: escapedTree.descendants, d.token.RawInAttributes := by
    refine List.forall_mem_cons.mpr ⟨tag, List.forall_mem_cons.mpr ⟨?_, ?_⟩⟩
    · exact .tag (fun absent => absurd rfl absent) (List.forall_mem_nil _)
    · refine List.forall_mem_cons.mpr ⟨?_, List.forall_mem_nil _⟩
      exact .plain fun absent => absurd rfl absent
  obtain ⟨tokens, trees, -⟩ := views_read_back
  exact ⟨tree, tokens [escapedTag] (List.forall_mem_cons.mpr ⟨tag, List.forall_mem_nil _⟩),
    trees escapedTree tree⟩

end Wxml
