import Wxml.Code
import Wxml.Proofs.Nesting

/-!
# The code of a node, part by part

Generation runs through a tree with a chain in hand. Here the code of one node is taken apart into
what does not look at the chain (`Token.body`, the tag around the code inside it, and
`Token.repeated`, the loops around the result) and what does (`Chain.branchAll`, the conditionals in
between). The attributes of a tag are read in source order: `Token.branches` and `Token.loops`.

**The law** (`Node.Built.generate_eq`): on a tree as reading builds it, generation is composed of
these parts.

**Not established**: the notices of generation, which are left out on both sides, and trees that
reading does not build. For the latter there is `Node.asBuilt`.
-/

namespace Wxml

/-! ## The directives of a tag -/

/-- The conditional that an attribute stands for. -/
def Directive.branch? : Directive → Option (Branch × String)
  | branch b e => some (b, e)
  | loop _ => none

/-- The expression of the loop that an attribute stands for. -/
def Directive.loop? : Directive → Option String
  | branch _ _ => none
  | loop e => some e

/-- A conditional goes to the back of the queue, so conditionals are read out in source order. -/
theorem Queue.conditionals_push (q : Queue) (d : Directive) :
    (q.push d).conditionals = q.conditionals ++ d.branch?.toList := by
  cases d with
  | branch b e => simp [Queue.conditionals, Queue.push, Directive.branch?]
  | loop e => simp [Queue.conditionals, Queue.push, Directive.branch?]

/-- A loop goes to the front, so loops are read out the other way round. -/
theorem Queue.loops_push (q : Queue) (d : Directive) :
    (q.push d).loops = d.loop?.toList ++ q.loops := by
  cases d with
  | branch b e => simp [Queue.loops, Queue.push, Directive.loop?]
  | loop e => simp [Queue.loops, Queue.push, Directive.loop?]

/-- The directives of some attributes, in source order. -/
def directives (attributes : List Token) : List Directive := attributes.filterMap Token.directive?

/-- The inline text of some attributes, in source order. -/
def inlineTexts (attributes : List Token) : String :=
  String.join ((attributes.filter (·.directive?.isNone)).map Token.inlineText)

/-- The text of a tag's attributes is made of those that are no directives. The queue plays no part
in it. -/
theorem renderAttributes_fst (attributes : List Token) (q : Queue) :
    (renderAttributes attributes q).1 = inlineTexts attributes := by
  induction attributes generalizing q with
  | nil => rfl
  | cons t ts ih =>
    rw [renderAttributes]
    split
    · next d hd => rw [ih, inlineTexts, inlineTexts, List.filter_cons_of_neg (by simp [hd])]
    · next hd =>
      show t.inlineText ++ (renderAttributes ts q).1 = _
      rw [ih, inlineTexts, inlineTexts, List.filter_cons_of_pos (by simp [hd]), List.map_cons,
        String.join_cons]

/-- The queue behind a tag's attributes holds their conditionals in source order, behind those that
it held before. -/
theorem renderAttributes_conditionals (attributes : List Token) (q : Queue) :
    (renderAttributes attributes q).2.conditionals =
      q.conditionals ++ (directives attributes).filterMap Directive.branch? := by
  induction attributes generalizing q with
  | nil => simp [renderAttributes, directives]
  | cons t ts ih =>
    rw [renderAttributes]
    split
    · next d hd =>
      rw [ih, Queue.conditionals_push, directives, directives, List.filterMap_cons_some hd,
        List.filterMap_cons, List.append_assoc]
      cases d.branch? <;> rfl
    · next hd =>
      show (renderAttributes ts q).2.conditionals = _
      rw [ih, directives, directives, List.filterMap_cons_none hd]

/-- The queue behind a tag's attributes holds their loops, the last one first, in front of those
that it held before. -/
theorem renderAttributes_loops (attributes : List Token) (q : Queue) :
    (renderAttributes attributes q).2.loops =
      ((directives attributes).filterMap Directive.loop?).reverse ++ q.loops := by
  induction attributes generalizing q with
  | nil => simp [renderAttributes, directives]
  | cons t ts ih =>
    rw [renderAttributes]
    split
    · next d hd =>
      rw [ih, Queue.loops_push, directives, directives, List.filterMap_cons_some hd,
        List.filterMap_cons, ← List.append_assoc]
      cases d.loop? <;> simp
    · next hd =>
      show (renderAttributes ts q).2.loops = _
      rw [ih, directives, directives, List.filterMap_cons_none hd]

namespace Token

/-- Whether a token is a tag whose attributes count. -/
def isElement (t : Token) : Bool := t.kind == .openTag || t.kind == .selfCloseTag

/-- The directives of an element, in source order. -/
def directives (t : Token) : List Directive :=
  if t.isElement then Wxml.directives (t.attributes.getD []) else []

/-- The conditionals of an element, in source order. -/
def branches (t : Token) : List (Branch × String) := t.directives.filterMap Directive.branch?

/-- The expressions of an element's loops, in source order. -/
def loops (t : Token) : List String := t.directives.filterMap Directive.loop?

/-- The loops of an element around some code, the first one outermost. -/
def repeated (t : Token) (code : String) : String :=
  t.loops.foldr (fun e code => repeatFor code e) code

/-- The code of a node without its directives, around the code inside it. -/
def body (t : Token) (inside : String) : String :=
  match t.kind with
  | .openTag =>
    "<" ++ camelCase t.value ++ inlineTexts (t.attributes.getD []) ++ ">" ++ inside ++ "</" ++
      camelCase t.value ++ ">"
  | .selfCloseTag => "<" ++ firstUpper t.value ++ inlineTexts (t.attributes.getD []) ++ "/>"
  | .text => normalizeText t.value
  | _ => ""

theorem rendered_fst (t : Token) : t.rendered.1 = inlineTexts (t.attributes.getD []) :=
  renderAttributes_fst _ _

/-- An element's queue starts empty, so what is in it is the element's own. Other tokens may carry
attributes, too, but these do not count. -/
theorem rendered_conditionals {t : Token} (h : t.isElement = true) :
    t.rendered.2.conditionals = t.branches := by
  rw [branches, directives, if_pos h, rendered, renderAttributes_conditionals]
  rfl

/-- The loops of an element, which the queue holds the other way round. Wrapping from the front of
the queue makes the first loop of the source the outermost one. -/
theorem rendered_loops {t : Token} (h : t.isElement = true) :
    t.rendered.2.loops = t.loops.reverse := by
  rw [loops, directives, if_pos h, rendered, renderAttributes_loops]
  exact List.append_nil _

theorem branches_of_not_isElement {t : Token} (h : t.isElement = false) : t.branches = [] := by
  simp [branches, directives, h]

theorem loops_of_not_isElement {t : Token} (h : t.isElement = false) : t.loops = [] := by
  simp [loops, directives, h]

end Token

/-! ## Generation -/

/-- Resolving the queue of an element is wrapping its code in its conditionals and then in its
loops. The loops leave the chain alone. -/
theorem Chain.resolve_rendered {t : Token} (h : t.isElement = true) (c : Chain) (code : String) :
    (c.resolve t.rendered.2 code).code = t.repeated (c.branchAll t.branches code).code ∧
      (c.resolve t.rendered.2 code).chain = (c.branchAll t.branches code).chain := by
  unfold Chain.resolve
  rw [Token.rendered_conditionals h, Token.rendered_loops h]
  refine ⟨?_, rfl⟩
  show t.loops.reverse.foldl repeatFor _ = _
  rw [Token.repeated, List.foldl_reverse]

/-- Around the code of anything else nothing is wrapped, so that `Node.Built.generate_eq` can speak
of all nodes alike. -/
theorem Token.repeated_branchAll {t : Token} (h : t.isElement = false) (c : Chain) (code : String) :
    t.repeated (c.branchAll t.branches code).code = code ∧
      (c.branchAll t.branches code).chain = c := by
  rw [Token.branches_of_not_isElement h, Token.repeated, Token.loops_of_not_isElement h]
  exact ⟨rfl, rfl⟩

/-- **The code of a node and the chain behind it.** The nodes inside come first; then the node's own
conditionals stand around its body, and its loops around all. -/
theorem Node.Built.generate_eq {n : Node} (h : n.Built) (c : Chain) :
    (n.generate c).code = n.token.repeated
        ((Node.generateAll n.inside c).chain.branchAll n.token.branches
          (n.token.body (Node.generateAll n.inside c).code)).code ∧
      (n.generate c).chain =
        ((Node.generateAll n.inside c).chain.branchAll n.token.branches
          (n.token.body (Node.generateAll n.inside c).code)).chain := by
  cases h with
  | @leaf t plain =>
    show (Node.generate (.leaf t) c).code = t.repeated (c.branchAll t.branches (t.body "")).code ∧
      (Node.generate (.leaf t) c).chain = (c.branchAll t.branches (t.body "")).chain
    cases hkind : t.kind with
    | openTag => exact absurd hkind plain
    | selfCloseTag =>
      have helement : t.isElement = true := by simp [Token.isElement, hkind]
      have hresolve := Chain.resolve_rendered helement c (t.body "")
      simp only [Token.body, hkind] at hresolve ⊢
      simp only [Node.generate, hkind, Token.single, Token.rendered_fst]
      exact hresolve
    | _ =>
      have hplain : t.isElement = false := by simp [Token.isElement, hkind]
      have hresolve := Token.repeated_branchAll hplain c (t.body "")
      rw [hresolve.1, hresolve.2]
      simp only [Node.generate, hkind, Token.body, and_self]
  | @element t children opens inside =>
    show (Node.generate (.element t children) c).code = t.repeated
        ((Node.generateAll children c).chain.branchAll t.branches
          (t.body (Node.generateAll children c).code)).code ∧
      (Node.generate (.element t children) c).chain =
        ((Node.generateAll children c).chain.branchAll t.branches
          (t.body (Node.generateAll children c).code)).chain
    have hresolve := Chain.resolve_rendered (t := t) (by simp [Token.isElement, opens])
      (Node.generateAll children c).chain (t.body (Node.generateAll children c).code)
    simp only [Token.body, opens] at hresolve ⊢
    simp only [Node.generate, opens, Token.wrap, Token.rendered_fst]
    exact hresolve

end Wxml
