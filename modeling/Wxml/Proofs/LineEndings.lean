import Mathlib.Data.List.Basic
import Wxml.Proofs.Generation
import Wxml.Proofs.LineEndings.Scan
import Wxml.Proofs.OutputText
import Wxml.Proofs.TreeTokens

/-!
# Documents with other line ends

A document may end its lines with a line feed, or with a carriage return and a line feed. The code
of the two is the same but for their line ends.

What has line ends in the output has them from an expression: names hold none, and texts lose
theirs. So the argument has three parts. Tokens of a text have legal names (`Token.WellNamed`); the
code of a tree with such tokens commutes with `withCrlf` (`Node.Built.generate_crlf`); and reading
commutes with it by the laws of the readers (`Token.scan_withCrlf`).

**The law** (`compile_withCrlf`): compiling commutes with writing carriage returns. Where a document
does not compile, the error is the same, at the same line and column.

**Not established**: the notices of a compilation, some of which quote an expression and so its line
ends. Nor is it said what a misplaced line feed is shown as, where the character itself is
misplaced.
-/

namespace Wxml

open Wxml.Text

/-! ## Names and texts -/

/-- A line feed is a blank, so it ends a tag's name. -/
theorem IsTagName.lineFeed_not_mem {name : List Char} (h : IsTagName name) : '\n' ∉ name := by
  intro hmem
  exact absurd (h _ hmem).2.2 (by decide)

theorem IsAttributeName.lineFeed_not_mem {name : List Char} (h : IsAttributeName name) :
    '\n' ∉ name := by
  intro hmem
  exact absurd (h.plain _ hmem).2.2.2 (by decide)

/-- **The names in a token are legal.** -/
structure Token.WellNamed (t : Token) : Prop where
  tag : t.isElement = true → IsTagName t.value.toList
  attributes : ∀ a ∈ t.attributes.getD [], IsAttributeName a.value.toList

/-- What can be written has legal names: the tag itself, if it is one, and all its attributes. -/
theorem Token.Spelling.wellNamed {t : Token} {x : List Char} (h : t.Spelling x) : t.WellNamed := by
  refine ⟨?_, h.attributes_named⟩
  cases h with
  | text => exact Bool.noConfusion
  | comment => exact Bool.noConfusion
  | closeTag named => exact Bool.noConfusion
  | openTag tag => exact fun _ => tag.named
  | selfCloseTag tag => exact fun _ => tag.named

/-! ## Attributes -/

/-- The directive with its expression changed. -/
def Directive.mapExpression (f : String → String) : Directive → Directive
  | branch b e => branch b (f e)
  | loop e => loop (f e)

namespace Token

/-- The expression of an attribute keeps its line ends; that of one without a value has none. -/
theorem expression_crlfPlain (t : Token) : t.crlfPlain.expression = withCrlf t.expression := by
  rw [expression, expression, ← stripExpression_withCrlf]
  show stripExpression ((t.rawValue.map withCrlf).getD "") = _
  cases t.rawValue <;> rfl

section Attribute

variable {t : Token} (named : IsAttributeName t.value.toList)

include named

/-- The name is the same, so that everything that is decided by names is. -/
theorem value_crlfPlain : t.crlfPlain.value = t.value := withCrlf_eq_self named.lineFeed_not_mem

/-- An attribute is the same directive, with the line ends of its expression. -/
theorem directive?_crlfPlain :
    t.crlfPlain.directive? = t.directive?.map (Directive.mapExpression withCrlf) := by
  rw [directive?, directive?, value_crlfPlain named, expression_crlfPlain]
  cases Role.ofName t.value <;> rfl

/-- An attribute is written the same, with the line ends of its expression. -/
theorem inlineText_crlfPlain : t.crlfPlain.inlineText = withCrlf t.inlineText := by
  have hname := named.outputName.lineFeed_not_mem
  rw [inlineText, inlineText, value_crlfPlain named, expression_crlfPlain, withCrlf_append,
    withCrlf_append, withCrlf_append, withCrlf_append, withCrlf_eq_self hname]
  rfl

end Attribute

end Token

theorem withCrlf_join (parts : List String) :
    withCrlf (String.join parts) = String.join (parts.map withCrlf) := by
  induction parts with
  | nil => rfl
  | cons part parts ih =>
    rw [String.join_cons, withCrlf_append, ih, List.map_cons, String.join_cons]

section Attributes

variable {as : List Token} (named : ∀ a ∈ as, IsAttributeName a.value.toList)

include named

theorem inlineTexts_crlfPlain :
    inlineTexts (as.map Token.crlfPlain) = withCrlf (inlineTexts as) := by
  have hinline : ∀ a ∈ as, (a.crlfPlain.directive?.isNone) = a.directive?.isNone := by
    intro a ha
    rw [Token.directive?_crlfPlain (named a ha), Option.isNone_map]
  rw [inlineTexts, inlineTexts, withCrlf_join, List.filter_map, List.map_map, List.map_map]
  have hfilter : as.filter ((fun t => t.directive?.isNone) ∘ Token.crlfPlain) =
      as.filter (·.directive?.isNone) := List.filter_congr hinline
  rw [hfilter]
  refine congrArg String.join (List.map_congr_left fun a ha => ?_)
  exact Token.inlineText_crlfPlain (named a (List.mem_filter.mp ha).1)

theorem directives_crlfPlain : directives (as.map Token.crlfPlain) =
    (directives as).map (Directive.mapExpression withCrlf) := by
  rw [directives, directives, List.filterMap_map, List.map_filterMap]
  exact List.filterMap_congr fun a ha => Token.directive?_crlfPlain (named a ha)

end Attributes

/-! ## Elements -/

namespace Token

@[simp] theorem kind_crlf (t : Token) : t.crlf.kind = t.kind := rfl

/-- The attributes of a tag are changed one by one; a token without any has none. -/
theorem attributes_crlf (t : Token) :
    t.crlf.attributes.getD [] = (t.attributes.getD []).map crlfPlain := by
  show (t.attributes.map (·.map crlfPlain)).getD [] = _
  cases t.attributes <;> rfl

variable {t : Token} (named : t.WellNamed)

include named

/-- The directives of an element are the same. Being an element is a matter of the kind. -/
theorem directives_crlf :
    t.crlf.directives = t.directives.map (Directive.mapExpression withCrlf) := by
  have helement : t.crlf.isElement = t.isElement := rfl
  rw [directives, directives, helement, attributes_crlf]
  by_cases element : t.isElement = true
  · rw [if_pos element, if_pos element, directives_crlfPlain named.attributes]
  · rw [if_neg element, if_neg element]
    rfl

/-- The conditionals of an element are the same branches. -/
theorem branches_crlf : t.crlf.branches = t.branches.map (Prod.map id withCrlf) := by
  rw [branches, branches, directives_crlf named, List.filterMap_map, List.map_filterMap]
  refine List.filterMap_congr fun d _ => ?_
  cases d <;> rfl

/-- The loops of an element are the same, with the line ends of their expressions. -/
theorem loops_crlf : t.crlf.loops = t.loops.map withCrlf := by
  rw [loops, loops, directives_crlf named, List.filterMap_map, List.map_filterMap]
  refine List.filterMap_congr fun d _ => ?_
  cases d <;> rfl

/-- The tag of an element is written with its name, which holds no line end; a text loses its
own. -/
theorem body_crlf (inside : String) :
    t.crlf.body (withCrlf inside) = withCrlf (t.body inside) := by
  unfold body
  rw [kind_crlf, attributes_crlf, inlineTexts_crlfPlain named.attributes]
  cases hkind : t.kind with
  | openTag =>
    have hname := named.tag (by rw [isElement, hkind]; rfl)
    have hvalue : t.crlf.value = t.value := withCrlf_eq_self hname.lineFeed_not_mem
    dsimp only
    rw [hvalue]
    simp only [withCrlf_append, withCrlf_eq_self hname.camelCase.lineFeed_not_mem]
    rfl
  | selfCloseTag =>
    have hname := named.tag (by rw [isElement, hkind]; rfl)
    have hvalue : t.crlf.value = t.value := withCrlf_eq_self hname.lineFeed_not_mem
    dsimp only
    rw [hvalue]
    simp only [withCrlf_append, withCrlf_eq_self hname.firstUpper.lineFeed_not_mem]
    rfl
  | text =>
    show normalizeText (withCrlf t.value) = withCrlf (normalizeText t.value)
    rw [normalizeText_withCrlf, withCrlf_eq_self (not_mem_normalizeText rfl t.value)]
  | _ => rfl

/-- The loops around some code: what is written around it besides the expression holds no line
end. -/
theorem repeated_crlf (code : String) :
    t.crlf.repeated (withCrlf code) = withCrlf (t.repeated code) := by
  rw [repeated, repeated, loops_crlf named]
  induction t.loops with
  | nil => rfl
  | cons e loops ih =>
    rw [List.map_cons, List.foldr_cons, List.foldr_cons, ih, repeatFor, repeatFor]
    simp only [withCrlf_append]
    rfl

end Token

/-! ## Conditionals -/

/-- One branch around some code. Whether it is written is up to the chain, which sees no line ends
and is the same behind both. -/
theorem Chain.branch_withCrlf (c : Chain) (b : Branch) (e code : String) :
    (c.branch b (withCrlf e) (withCrlf code)).code = withCrlf (c.branch b e code).code ∧
      (c.branch b (withCrlf e) (withCrlf code)).chain = (c.branch b e code).chain := by
  cases b with
  | opens =>
    refine ⟨?_, rfl⟩
    simp only [branch, withCrlf_append]
    rfl
  | continues =>
    by_cases hopen : c.isOpen = true
    · simp only [branch, if_pos hopen, withCrlf_append, and_true]
      rfl
    · simp only [branch, if_neg hopen, and_self]
  | closes =>
    by_cases hopen : c.isOpen = true
    · simp only [branch, if_pos hopen, withCrlf_append, and_true]
      rfl
    · simp only [branch, if_neg hopen, and_self]

theorem Chain.branchAll_withCrlf (c : Chain) (branches : List (Branch × String)) (code : String) :
    (c.branchAll (branches.map (Prod.map id withCrlf)) (withCrlf code)).code =
        withCrlf (c.branchAll branches code).code ∧
      (c.branchAll (branches.map (Prod.map id withCrlf)) (withCrlf code)).chain =
        (c.branchAll branches code).chain := by
  induction branches generalizing c code with
  | nil => exact ⟨rfl, rfl⟩
  | cons first branches ih =>
    obtain ⟨b, e⟩ := first
    obtain ⟨hcode, hchain⟩ := c.branch_withCrlf b e code
    simp only [List.map_cons, Prod.map_apply, id_eq, branchAll, hcode, hchain]
    exact ih _ _

/-! ## Trees -/

theorem Node.token_mapTokens (f : Token → Token) (n : Node) :
    (n.mapTokens f).token = f n.token := by
  cases n <;> rfl

theorem Node.inside_mapTokens (f : Token → Token) (n : Node) :
    (n.mapTokens f).inside = n.inside.map (Node.mapTokens f) := by
  cases n with
  | leaf t => rfl
  | element t children => exact Node.mapTokensAll_eq_map f children

/-- A tree that reading could have built stays one when its tokens change and keep their kinds. -/
theorem Node.Built.mapTokens {f : Token → Token} (kept : ∀ t, (f t).kind = t.kind) {n : Node}
    (h : n.Built) : (n.mapTokens f).Built := by
  induction h with
  | leaf plain => exact .leaf (by rwa [kept])
  | element opens _ ih =>
    refine .element (by rwa [kept]) ?_
    rw [Node.mapTokensAll_eq_map]
    exact List.forall_mem_map.mpr ih

/-- The code of siblings, if the law holds of each. -/
theorem Node.generateAll_crlf {ns : List Node} {c : Chain}
    (h : ∀ n ∈ ns, ∀ c, ((n.mapTokens Token.crlf).generate c).code = withCrlf (n.generate c).code ∧
      ((n.mapTokens Token.crlf).generate c).chain = (n.generate c).chain) :
    (Node.generateAll (ns.map (Node.mapTokens Token.crlf)) c).code =
        withCrlf (Node.generateAll ns c).code ∧
      (Node.generateAll (ns.map (Node.mapTokens Token.crlf)) c).chain =
        (Node.generateAll ns c).chain := by
  induction ns generalizing c with
  | nil => exact ⟨rfl, rfl⟩
  | cons n ns ih =>
    obtain ⟨hcode, hchain⟩ := h n List.mem_cons_self c
    obtain ⟨hcodes, hchains⟩ := ih (c := (n.generate c).chain) fun m hm =>
      h m (List.mem_cons_of_mem _ hm)
    simp only [List.map_cons, Node.generateAll, hcode, hchain, hcodes, hchains, withCrlf_append,
      and_self]

/-- **The code of a tree with other line ends**, from the same chain and to the same chain. -/
theorem Node.Built.generate_crlf {n : Node} (h : n.Built)
    (named : ∀ d ∈ n :: n.descendants, d.token.WellNamed) (c : Chain) :
    ((n.mapTokens Token.crlf).generate c).code = withCrlf (n.generate c).code ∧
      ((n.mapTokens Token.crlf).generate c).chain = (n.generate c).chain := by
  refine h.induction (P := fun n => (∀ d ∈ n :: n.descendants, d.token.WellNamed) → ∀ c,
    ((n.mapTokens Token.crlf).generate c).code = withCrlf (n.generate c).code ∧
      ((n.mapTokens Token.crlf).generate c).chain = (n.generate c).chain)
    (fun n built ih named c => ?_) named c
  have own := named n List.mem_cons_self
  obtain ⟨hinside, hchain⟩ := Node.generateAll_crlf (c := c) fun m hm =>
    ih m hm (Node.forall_inside named hm)
  obtain ⟨hcode, hchain'⟩ := (Node.generateAll n.inside c).chain.branchAll_withCrlf n.token.branches
    (n.token.body (Node.generateAll n.inside c).code)
  obtain ⟨hgenerated, hbehind⟩ := (built.mapTokens Token.kind_crlf).generate_eq c
  rw [Node.token_mapTokens, Node.inside_mapTokens, hinside, hchain, Token.body_crlf own,
    Token.branches_crlf own] at hgenerated hbehind
  rw [hgenerated, hbehind, hcode, hchain', Token.repeated_crlf own, (built.generate_eq c).1,
    (built.generate_eq c).2]
  exact ⟨rfl, rfl⟩

/-! ## The law -/

/-- Tokens with other line ends build the same tree, with them. Building looks at kinds only. -/
theorem Node.ofTokens_crlf (ts : List Token) :
    ResultFollows (Node.mapTokens Token.crlf) (Node.ofTokens ts).1
      (Node.ofTokens (ts.map Token.crlf)).1 := by
  have hmap := Node.read?_map Token.kind_crlf ts
  cases hread : Node.read? ts with
  | none =>
    rw [hread] at hmap
    rw [Node.ofTokens_of_none hread, Node.ofTokens_of_none (Option.map_eq_none_iff.mp hmap)]
    refine .error ⟨.same _, ?_⟩
    rw [List.getLast?_map, Option.map_map, Option.map_map]
    rfl
  | some g =>
    rw [hread] at hmap
    obtain ⟨g', hread', hnode⟩ := Option.map_eq_some_iff.mp hmap
    rw [Node.ofTokens_eq_ok_iff.mpr ⟨g, hread, rfl⟩,
      Node.ofTokens_eq_ok_iff.mpr ⟨g', hread', hnode⟩]
    exact .ok g.node

/-- The tree of a document with other line ends is its tree with them, and its error is the same
one. The two steps of reading are joined here. -/
theorem readTree_withCrlf (text : String) :
    ResultFollows (Node.mapTokens Token.crlf) (readTree text).1 (readTree (withCrlf text)).1 := by
  have hscan := Token.scan_withCrlf text
  unfold readTree readTokens
  generalize Token.scan text = result at hscan ⊢
  generalize Token.scan (withCrlf text) = result' at hscan ⊢
  cases hscan with
  | ok ts => exact Node.ofTokens_crlf ts
  | error alike => exact .error alike

/-- The tokens of a document's tree have legal names, as they are among the tokens that were
read. -/
theorem wellNamed_of_readTree {text : String} {root : Node} (h : (readTree text).1 = .ok root) :
    ∀ d ∈ root :: root.descendants, d.token.WellNamed := by
  obtain ⟨ts, hscan, htokens⟩ := readTree_eq_ok_iff.mp h
  obtain ⟨g, hread, rfl⟩ := Node.ofTokens_eq_ok_iff.mp htokens
  intro d hd
  obtain ⟨y, spelled⟩ := (Token.layout_of_scan hscan).exists_spelling
    (Node.token_of_read? hread hd).1
  exact spelled.wellNamed

/-- The result of compiling a document with other line ends follows the result for the document:
code from the tree, or the error of reading. -/
theorem compile_follows (text : String) :
    ResultFollows withCrlf (compile text).1 (compile (withCrlf text)).1 := by
  have htree := readTree_withCrlf text
  rw [compile_eq_map, compile_eq_map]
  generalize hread : (readTree text).1 = result at htree ⊢
  generalize (readTree (withCrlf text)).1 = result' at htree ⊢
  cases htree with
  | ok root =>
    obtain ⟨ts, -, htokens⟩ := readTree_eq_ok_iff.mp hread
    have built := Node.built_of_ofTokens htokens
    have hcode : ((root.mapTokens Token.crlf).generateRoot {}).code =
        withCrlf (root.generateRoot {}).code :=
      (built.generate_crlf (wellNamed_of_readTree hread) {}).1
    show ResultFollows withCrlf (.ok (root.generateRoot {}).code)
      (.ok ((root.mapTokens Token.crlf).generateRoot {}).code)
    rw [hcode]
    exact .ok _
  | error alike => exact .error alike

/-- **Line ends commute with compilation.** The code of a document with carriage returns is its code
with carriage returns. If a document does not compile, then with carriage returns it has the same
error, at the same line and column. -/
theorem compile_withCrlf (text : String) :
    (∀ code, (compile text).1 = .ok code → (compile (withCrlf text)).1 = .ok (withCrlf code)) ∧
      ∀ e, (compile text).1 = .error e → ∃ e', (compile (withCrlf text)).1 = .error e' ∧
        e.cause.Alike e'.cause ∧ e'.position = e.position.map Position.crlf := by
  have hfollows := compile_follows text
  constructor
  · intro code hcode
    rw [hcode] at hfollows
    exact hfollows.eq_ok
  · intro e he
    rw [he] at hfollows
    obtain ⟨e', he', alike⟩ := hfollows.exists_error
    exact ⟨e', he', alike.cause, alike.position⟩

/-- A document with line feeds in a tag, in a value and in a text, and one that ends a line where
the name of a tag should stand. -/
theorem compile_withCrlf_lines :
    let text := "<a\n b='1\n2'>x\ny</a>"
    let broken := "<a>\n<\nb>"
    let misplaced : CompileError :=
      ⟨.unexpected "'\\n' where a tag name was expected", some ⟨2, 2, 5⟩⟩
    ((compile text).1 = .ok "<A b=\"1\n2\">xy</A>" ∧
        (compile (withCrlf text)).1 = .ok (withCrlf "<A b=\"1\n2\">xy</A>")) ∧
      (compile broken).1 = .error misplaced ∧
        ∃ e, (compile (withCrlf broken)).1 = .error e ∧ misplaced.cause.Alike e.cause ∧
          e.position = some ⟨2, 2, 6⟩ := by
  intro text broken misplaced
  have htext : (compile text).1 = .ok "<A b=\"1\n2\">xy</A>" := by decide +kernel
  have hbroken : (compile broken).1 = .error misplaced := by decide +kernel
  exact ⟨⟨htext, (compile_withCrlf text).1 _ htext⟩, hbroken, (compile_withCrlf broken).2 _ hbroken⟩

end Wxml
