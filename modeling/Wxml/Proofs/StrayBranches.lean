import Wxml.Proofs.AttributeOrder

/-!
# Branches without an opening

A branch that continues or closes a conditional does something only when one is open. Where no
element of a tree opens one, and the chain is closed when the pass starts, it stays closed through
the whole pass: the branches are strays. They leave their elements as they are, also between loops
and inline attributes, and the chain as it is.

**The law** (`generate_withoutStrays`): such a tree has the code of the tree without its strays.

**Not established**: that nothing is noticed. A stray gives a notice, and the tree without it gives
none.
-/

namespace Wxml

/-! ## One element -/

/-- The names of the branches that need an open conditional. -/
def strayNames : List String := ["wx:elseif", "wx:elif", "wx:else"]

/-- Some attributes without the branches that need an open conditional. -/
def withoutStrays (attributes : List Token) : List Token :=
  attributes.filter fun a => a.value ∉ strayNames

/-- The token without the branches that need an open conditional. -/
def Token.withoutStrays (t : Token) : Token :=
  { t with attributes := t.attributes.map Wxml.withoutStrays }

/-- Strays are conditionals, so that taking them away changes no other class of attributes. -/
theorem AttributeClass.ofName_of_stray {name : String} (h : name ∈ strayNames) :
    AttributeClass.ofName name = .conditional := by
  simp only [strayNames, List.mem_cons, List.not_mem_nil, or_false] at h
  rcases h with rfl | rfl | rfl <;> decide

/-- Only strays are conditionals that do not open one. The names of conditionals are the strays and
the one that opens. -/
theorem mem_strayNames_of_conditional {name : String}
    (h : AttributeClass.ofName name = .conditional) (notIf : name ≠ "wx:if") :
    name ∈ strayNames := by
  have hfor : name ≠ "wx:for" := by
    rintro rfl
    exact absurd h (by decide)
  by_cases hmem : name ∈ conditionalNames
  · exact (List.mem_cons.mp hmem).resolve_left notIf
  · rw [AttributeClass.ofName, if_neg hfor, if_neg hmem] at h
    cases h

/-- Loops and inline attributes stay, in their order. -/
theorem ofClass_withoutStrays {k : AttributeClass} (hk : k ≠ .conditional)
    (attributes : List Token) : ofClass k (withoutStrays attributes) = ofClass k attributes := by
  rw [ofClass, ofClass, withoutStrays, List.filter_filter]
  refine List.filter_congr ?_
  intro a _
  by_cases hstray : a.value ∈ strayNames
  · have hclass : AttributeClass.ofName a.value ≠ k := by
      rw [AttributeClass.ofName_of_stray hstray]
      exact hk.symm
    simp [hclass]
  · simp [hstray]

/-- Where nothing opens a conditional, no conditional is left. -/
theorem conditionalsOf_withoutStrays {attributes : List Token}
    (h : ∀ a ∈ attributes, a.value ≠ "wx:if") : conditionalsOf (withoutStrays attributes) = [] := by
  rw [conditionalsOf, List.map_eq_nil_iff, ofClass, List.filter_eq_nil_iff]
  intro a ha hclass
  obtain ⟨hmem, hkept⟩ := List.mem_filter.mp ha
  have hstray := mem_strayNames_of_conditional (of_decide_eq_true hclass) (h a hmem)
  exact of_decide_eq_true hkept hstray

theorem Branch.ofName_ne_opens {name : String} (h : name ≠ "wx:if") :
    Branch.ofName name ≠ .opens := by
  rw [Branch.ofName, if_neg h]
  split <;> decide

/-- So where no attribute has that name, the branches all need an open conditional. -/
theorem ne_opens_of_mem_conditionalsOf {attributes : List Token}
    (h : ∀ a ∈ attributes, a.value ≠ "wx:if") :
    ∀ b ∈ conditionalsOf attributes, b.1 ≠ .opens := by
  intro b hb
  obtain ⟨a, ha, rfl⟩ := List.mem_map.mp hb
  exact Branch.ofName_ne_opens (h a (List.mem_filter.mp ha).1)

/-- A closed chain passes over branches that need an open one, and is as closed behind them as
before. So any number of them leaves the code alone. -/
theorem Chain.branchAll_of_closed {c : Chain} (closed : c.isOpen = false)
    {bs : List (Branch × String)} (h : ∀ b ∈ bs, b.1 ≠ .opens) (code : String) :
    (c.branchAll bs code).code = code ∧ (c.branchAll bs code).chain = c := by
  induction bs with
  | nil => exact ⟨rfl, rfl⟩
  | cons b bs ih =>
    obtain ⟨branch, e⟩ := b
    obtain ⟨hb, hbs⟩ := List.forall_mem_cons.mp h
    have hstep : (c.branch branch e code).code = code ∧ (c.branch branch e code).chain = c := by
      cases branch with
      | opens => exact absurd rfl hb
      | continues => simp [Chain.branch, closed]
      | closes => simp [Chain.branch, closed]
    rw [Chain.branchAll, hstep.1, hstep.2]
    exact ih hbs

/-- **One element.** Its strays change nothing: neither its code, in which its loops still stand
around it, nor the chain. -/
theorem Chain.resolve_withoutStrays {c : Chain} (closed : c.isOpen = false)
    {attributes : List Token} (h : ∀ a ∈ attributes, a.value ≠ "wx:if") (code : String) :
    (c.resolve (renderAttributes attributes {}).2 code).code =
        (c.resolve (renderAttributes (withoutStrays attributes) {}).2 code).code ∧
      (c.resolve (renderAttributes attributes {}).2 code).chain = c ∧
      (c.resolve (renderAttributes (withoutStrays attributes) {}).2 code).chain = c := by
  obtain ⟨hcode, hchain⟩ := branchAll_of_closed closed (ne_opens_of_mem_conditionalsOf h) code
  have hloops : loopsOf (withoutStrays attributes) = loopsOf attributes := by
    rw [loopsOf, loopsOf, ofClass_withoutStrays (by decide)]
  simp only [Chain.resolve, conditionals_renderAttributes, loops_renderAttributes,
    conditionalsOf_withoutStrays h, hloops, hcode, hchain]
  exact ⟨rfl, trivial, rfl⟩

/-- The inline text of an element is the same without its strays. -/
theorem text_withoutStrays (attributes : List Token) :
    (renderAttributes (withoutStrays attributes) {}).1 = (renderAttributes attributes {}).1 := by
  rw [text_renderAttributes, text_renderAttributes, ofClass_withoutStrays (by decide)]

/-! ## One token -/

/-- What a pass makes of two trees that differ in strays: the same code, and the chain as it was. -/
structure Alike (c : Chain) (g g' : Generated) : Prop where
  code : g.code = g'.code
  chain : g.chain = c
  chain' : g'.chain = c

namespace Token

variable {t : Token} {c : Chain}

theorem attributes_withoutStrays (t : Token) :
    t.withoutStrays.attributes.getD [] = Wxml.withoutStrays (t.attributes.getD []) := by
  cases h : t.attributes with
  | none => simp [Token.withoutStrays, h, Wxml.withoutStrays]
  | some attributes => simp [Token.withoutStrays, h]

/-- One element around two insides that are alike. -/
theorem alike_wrap (closed : c.isOpen = false)
    (h : ∀ a ∈ t.attributes.getD [], a.value ≠ "wx:if") {inside inside' : Generated}
    (alike : Alike c inside inside') : Alike c (t.wrap inside) (t.withoutStrays.wrap inside') := by
  obtain ⟨hcode, hchain, hchain'⟩ := Chain.resolve_withoutStrays closed h
    ("<" ++ camelCase t.value ++ (renderAttributes (t.attributes.getD []) {}).1 ++ ">" ++
      inside.code ++ "</" ++ camelCase t.value ++ ">")
  constructor <;>
    simp only [Token.wrap, Token.rendered, attributes_withoutStrays, text_withoutStrays,
      ← alike.code, alike.chain, alike.chain']
  · exact hcode
  · exact hchain
  · exact hchain'

/-- One token with nothing inside, of any kind. -/
theorem alike_single (closed : c.isOpen = false)
    (h : ∀ a ∈ t.attributes.getD [], a.value ≠ "wx:if") :
    Alike c (t.single c) (t.withoutStrays.single c) := by
  obtain ⟨hcode, hchain, hchain'⟩ := Chain.resolve_withoutStrays closed h
    ("<" ++ firstUpper t.value ++ (renderAttributes (t.attributes.getD []) {}).1 ++ "/>")
  constructor <;>
    simp only [Token.single, Token.rendered, attributes_withoutStrays, text_withoutStrays]
  · exact hcode
  · exact hchain
  · exact hchain'

end Token

/-! ## Trees -/

/-- No element of the tree opens a conditional. -/
def Node.NeverOpens (n : Node) : Prop :=
  ∀ d ∈ n :: n.descendants, d.token.isElement = true →
    ∀ a ∈ d.token.attributes.getD [], a.value ≠ "wx:if"

instance (n : Node) : Decidable n.NeverOpens :=
  inferInstanceAs (Decidable (∀ d ∈ n :: n.descendants, d.token.isElement = true →
    ∀ a ∈ d.token.attributes.getD [], a.value ≠ "wx:if"))

namespace Node

variable {c : Chain}

mutual

/-- A pass over a tree that never opens a conditional keeps a closed chain closed, and so does the
pass over the tree without strays. The recursion is on the tree, with the siblings beside it. -/
theorem NeverOpens.alike {n : Node} (h : n.NeverOpens) (closed : c.isOpen = false) :
    Alike c (n.generate c) ((n.mapTokens Token.withoutStrays).generate c) := by
  have own := h n List.mem_cons_self
  cases n with
  | leaf t =>
    rw [mapTokens, generate, generate]
    have same : t.withoutStrays.kind = t.kind := rfl
    rw [same]
    cases hkind : t.kind with
    | openTag =>
      exact Token.alike_wrap closed (own (by simp [token, Token.isElement, hkind]))
        ⟨rfl, rfl, rfl⟩
    | selfCloseTag =>
      exact Token.alike_single closed (own (by simp [token, Token.isElement, hkind]))
    | _ => exact ⟨rfl, rfl, rfl⟩
  | element t children =>
    rw [mapTokens, generate, generate]
    have same : t.withoutStrays.kind = t.kind := rfl
    rw [same]
    cases hkind : t.kind with
    | openTag =>
      have inside : ∀ m ∈ children, m.NeverOpens := fun m hm => Node.forall_inside h hm
      exact Token.alike_wrap closed (own (by simp [token, Token.isElement, hkind]))
        (alike_generateAll inside closed)
    | selfCloseTag =>
      exact Token.alike_single closed (own (by simp [token, Token.isElement, hkind]))
    | _ => exact ⟨rfl, rfl, rfl⟩

/-- The same for trees in a row: the chain is closed before each of them, since it was never
changed. -/
theorem alike_generateAll {ns : List Node} (h : ∀ n ∈ ns, n.NeverOpens)
    (closed : c.isOpen = false) :
    Alike c (generateAll ns c) (generateAll (mapTokensAll Token.withoutStrays ns) c) := by
  cases ns with
  | nil => exact ⟨rfl, rfl, rfl⟩
  | cons n ns =>
    obtain ⟨hn, hns⟩ := List.forall_mem_cons.mp h
    have first := hn.alike closed
    have rest := alike_generateAll hns closed
    rw [mapTokensAll, generateAll, generateAll, first.chain, first.chain']
    refine ⟨?_, rest.chain, rest.chain'⟩
    show (n.generate c).code ++ _ = ((n.mapTokens Token.withoutStrays).generate c).code ++ _
    rw [first.code, rest.code]

end

end Node

/-- **Without an opening, the other branches are inert.** A pass over a tree in which no element
opens a conditional, from a chain that is empty or ends with a closing branch, gives the code of the
tree without the branches that continue or close one. It leaves the chain as it was. -/
theorem generate_withoutStrays {n : Node} (h : n.NeverOpens) {c : Chain}
    (closed : c.toList = [] ∨ c.toList.getLast? = some .closes) :
    (n.generate c).code = ((n.mapTokens Token.withoutStrays).generate c).code ∧
      (n.generate c).chain = c ∧ ((n.mapTokens Token.withoutStrays).generate c).chain = c := by
  have alike := h.alike (c.isOpen_eq_false_iff.mpr closed)
  exact ⟨alike.code, alike.chain, alike.chain'⟩

/-- Strays at two depths, several on one element and mixed with a loop. -/
def strayTree : Node :=
  .element (.ofTag .openTag "a" [.ofAttribute "wx:else" "", .ofAttribute "wx:for" "xs",
      .ofAttribute "wx:elif" "p", .ofAttribute "id" "i"])
    [.leaf (.ofTag .selfCloseTag "b" [.ofAttribute "wx:elseif" "q"]),
      .leaf ⟨.text, "t", .start, none, none⟩]

/-- The chain has a conditional behind it, which is closed. -/
theorem generate_strayTree :
    strayTree.NeverOpens ∧ Chain.toList ⟨[.closes, .opens]⟩ = [.opens, .closes] ∧
      (strayTree.generate ⟨[.closes, .opens]⟩).code =
        "<>\x7bxs.map((item)=><A id=\"i\"><B/>t</A>)\x7d</>" ∧
      (strayTree.generate ⟨[.closes, .opens]⟩).code =
        ((strayTree.mapTokens Token.withoutStrays).generate ⟨[.closes, .opens]⟩).code ∧
      (strayTree.generate ⟨[.closes, .opens]⟩).chain = ⟨[.closes, .opens]⟩ := by
  have never : strayTree.NeverOpens := by decide +kernel
  obtain ⟨code, chain, -⟩ := generate_withoutStrays (c := ⟨[.closes, .opens]⟩) never (.inr rfl)
  exact ⟨never, rfl, by decide +kernel, code, chain⟩

end Wxml
