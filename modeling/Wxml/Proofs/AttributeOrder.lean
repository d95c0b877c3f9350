import Wxml.Proofs.ChainRun

/-!
# The order of attributes

An element's attributes fall into three classes by their names: loops, conditionals, and those that
are written inline (`AttributeClass`). The queue takes loops at its front and conditionals at its
back, and is read out by two filters. So what an element becomes is told class by class: its inline
text from the inline attributes, the conditionals around its code from the conditionals, and the
loops around all from the loops, the first one outermost.

**The law** (`resolve_renderAttributes`) says this for every list of attributes and every chain.
Attributes of different classes may therefore change places: only the order within each class
counts.

**Not established**: that the order between classes can be seen nowhere. It shows in the tokens and
in the tree; what does not depend on it is what an element becomes.
-/

namespace Wxml

/-! ## Classes -/

/-- What becomes of an attribute. -/
inductive AttributeClass where
  | loop
  | conditional
  | inline
  deriving DecidableEq, Repr

/-- The names of the attributes that are conditionals. -/
def conditionalNames : List String := ["wx:if", "wx:elseif", "wx:elif", "wx:else"]

/-- The class of an attribute, by its name. -/
def AttributeClass.ofName (name : String) : AttributeClass :=
  if name = "wx:for" then .loop
  else if name ∈ conditionalNames then .conditional
  else .inline

/-- The attributes of a class, in source order. -/
def ofClass (k : AttributeClass) (attributes : List Token) : List Token :=
  attributes.filter fun a => AttributeClass.ofName a.value = k

/-- The branch that a conditional's name stands for. -/
def Branch.ofName (name : String) : Branch :=
  if name = "wx:if" then .opens else if name = "wx:else" then .closes else .continues

/-- The expressions of the loops, in source order. -/
def loopsOf (attributes : List Token) : List String :=
  (ofClass .loop attributes).map Token.expression

/-- The conditionals with their expressions, in source order. -/
def conditionalsOf (attributes : List Token) : List (Branch × String) :=
  (ofClass .conditional attributes).map fun a => (Branch.ofName a.value, a.expression)

/-- The classes are given by names, the roles by another table. These three lemmas say that the two
agree. -/
theorem Role.ofName_of_loop {name : String} (h : AttributeClass.ofName name = .loop) :
    Role.ofName name = .loop := by
  by_cases hfor : name = "wx:for"
  · rw [hfor]
    decide
  · rw [AttributeClass.ofName, if_neg hfor] at h
    split at h <;> cases h

/-- A conditional has the role of its branch. Two names stand for the same one. -/
theorem Role.ofName_of_conditional {name : String} (h : AttributeClass.ofName name = .conditional) :
    Role.ofName name = .branch (Branch.ofName name) := by
  have hmem : name ∈ conditionalNames := by
    rw [AttributeClass.ofName] at h
    split at h
    · cases h
    · split at h
      · assumption
      · cases h
  simp only [conditionalNames, List.mem_cons, List.not_mem_nil, or_false] at hmem
  rcases hmem with rfl | rfl | rfl | rfl <;> decide

/-- Whatever is in neither class is not queued, so that it is written inline. -/
theorem Role.isQueued_of_inline {name : String} (h : AttributeClass.ofName name = .inline) :
    (Role.ofName name).isQueued = false := by
  have hfor : name ≠ "wx:for" := by
    rintro rfl
    exact absurd h (by decide)
  have hother : name ∉ conditionalNames := by
    intro hmem
    rw [AttributeClass.ofName, if_neg hfor, if_pos hmem] at h
    cases h
  simp only [conditionalNames, List.mem_cons, List.not_mem_nil, or_false, not_or] at hother
  obtain ⟨hif, helseif, helif, helse⟩ := hother
  rw [Role.ofName, if_neg hif, if_neg helseif, if_neg helif, if_neg helse, if_neg hfor]
  repeat' split
  all_goals rfl

/-- The directive of an attribute, told from its class. What becomes of an attribute is decided by
its name alone, and its expression goes along. -/
theorem Token.directive?_eq (t : Token) :
    t.directive? = match AttributeClass.ofName t.value with
      | .loop => some (.loop t.expression)
      | .conditional => some (.branch (Branch.ofName t.value) t.expression)
      | .inline => none := by
  rw [Token.directive?]
  cases hclass : AttributeClass.ofName t.value with
  | loop => rw [Role.ofName_of_loop hclass, Role.directive?]
  | conditional => rw [Role.ofName_of_conditional hclass, Role.directive?]
  | inline =>
    have hqueued := Role.isQueued_of_inline hclass
    cases hrole : Role.ofName t.value with
    | branch b => rw [hrole] at hqueued; cases hqueued
    | loop => rw [hrole] at hqueued; cases hqueued
    | _ => rfl

/-! ## What the queue is read out as -/

theorem ofClass_cons (k : AttributeClass) (a : Token) (attributes : List Token) :
    ofClass k (a :: attributes) =
      if AttributeClass.ofName a.value = k then a :: ofClass k attributes
      else ofClass k attributes := by
  simp [ofClass, List.filter_cons]

theorem inlineTexts_eq (attributes : List Token) :
    inlineTexts attributes = String.join ((ofClass .inline attributes).map Token.inlineText) := by
  have hfilter : attributes.filter (·.directive?.isNone) = ofClass .inline attributes := by
    refine List.filter_congr ?_
    intro a _
    rw [Token.directive?_eq]
    cases AttributeClass.ofName a.value <;> rfl
  rw [inlineTexts, hfilter]

theorem filterMap_branch?_directives (attributes : List Token) :
    (directives attributes).filterMap Directive.branch? = conditionalsOf attributes := by
  induction attributes with
  | nil => rfl
  | cons a attributes ih =>
    rw [conditionalsOf, ofClass_cons, directives, List.filterMap_cons, Token.directive?_eq]
    cases AttributeClass.ofName a.value with
    | conditional => exact congrArg ((Branch.ofName a.value, a.expression) :: ·) ih
    | loop => exact ih
    | inline => exact ih

theorem filterMap_loop?_directives (attributes : List Token) :
    (directives attributes).filterMap Directive.loop? = loopsOf attributes := by
  induction attributes with
  | nil => rfl
  | cons a attributes ih =>
    rw [loopsOf, ofClass_cons, directives, List.filterMap_cons, Token.directive?_eq]
    cases AttributeClass.ofName a.value with
    | loop => exact congrArg (a.expression :: ·) ih
    | conditional => exact ih
    | inline => exact ih

theorem text_renderAttributes (attributes : List Token) :
    (renderAttributes attributes {}).1 =
      String.join ((ofClass .inline attributes).map Token.inlineText) := by
  rw [renderAttributes_fst, inlineTexts_eq]

theorem conditionals_renderAttributes (attributes : List Token) :
    (renderAttributes attributes {}).2.conditionals = conditionalsOf attributes := by
  rw [renderAttributes_conditionals, filterMap_branch?_directives]
  rfl

/-- The queue holds the loops the other way round. Each of them was put in front of those before
it. -/
theorem loops_renderAttributes (attributes : List Token) :
    (renderAttributes attributes {}).2.loops = (loopsOf attributes).reverse := by
  rw [renderAttributes_loops, filterMap_loop?_directives]
  exact List.append_nil _

/-! ## One conditional after the other -/

/-- Wraps generated code in one more conditional. -/
def Generated.under (g : Generated) (b : Branch × String) : Generated :=
  let next := g.chain.branch b.1 b.2 g.code
  { next with notices := g.notices ++ next.notices }

/-- Wrapping code in some branches is wrapping it in one after the other. The notices add up in the
same order. -/
theorem foldl_under (g : Generated) (bs : List (Branch × String)) :
    bs.foldl Generated.under g =
      { g.chain.branchAll bs g.code with
        notices := g.notices ++ (g.chain.branchAll bs g.code).notices } := by
  induction bs generalizing g with
  | nil => simp [Chain.branchAll]
  | cons b bs ih =>
    rw [List.foldl_cons, ih]
    simp only [Generated.under, Chain.branchAll, List.append_assoc]

/-- The conditionals of an element as one fold over generated code. -/
theorem Chain.branchAll_eq_foldl (c : Chain) (bs : List (Branch × String)) (code : String) :
    c.branchAll bs code = bs.foldl Generated.under ⟨code, c, []⟩ :=
  (foldl_under ⟨code, c, []⟩ bs).symm

/-! ## The law -/

/-- The code of an element and what is noticed depend on the queue by its two readings: its
conditionals and its loops. How the two are mixed in it does not matter. -/
theorem Chain.resolve_congr {q q' : Queue} (hbranches : q'.conditionals = q.conditionals)
    (hloops : q'.loops = q.loops) (c : Chain) (code : String) :
    c.resolve q' code = c.resolve q code := by
  rw [Chain.resolve, Chain.resolve, hbranches, hloops]

/-- **Only the order within each class counts.** Rendering the attributes of an element into an
empty queue gives the text of the inline ones. Resolving the queue wraps the element's code in the
conditionals, one after the other, and then in the loops, the first one outermost; the chain changes
by the conditionals alone. So attributes that are the same class by class give the same text, the
same code and the same chain. -/
theorem resolve_renderAttributes (attributes : List Token) (c : Chain) (x : String) :
    (renderAttributes attributes {}).1 =
        String.join ((ofClass .inline attributes).map Token.inlineText) ∧
      (c.resolve (renderAttributes attributes {}).2 x).code =
        (loopsOf attributes).foldr (fun e z => "<>\x7b" ++ e ++ ".map((item)=>" ++ z ++ ")\x7d</>")
          ((conditionalsOf attributes).foldl Generated.under ⟨x, c, []⟩).code ∧
      (c.resolve (renderAttributes attributes {}).2 x).chain =
        ((conditionalsOf attributes).foldl Generated.under ⟨x, c, []⟩).chain ∧
      (c.resolve (renderAttributes attributes {}).2 x).chain =
        ((conditionalsOf attributes).map Prod.fst).foldl Chain.meet c ∧
      ∀ others, (∀ k, ofClass k others = ofClass k attributes) →
        (renderAttributes others {}).1 = (renderAttributes attributes {}).1 ∧
          c.resolve (renderAttributes others {}).2 x =
            c.resolve (renderAttributes attributes {}).2 x := by
  refine ⟨text_renderAttributes attributes, ?_, ?_, ?_, ?_⟩
  · rw [Chain.resolve, conditionals_renderAttributes, loops_renderAttributes,
      ← Chain.branchAll_eq_foldl]
    exact List.foldl_reverse
  · rw [Chain.resolve, conditionals_renderAttributes, ← Chain.branchAll_eq_foldl]
  · rw [Chain.resolve, conditionals_renderAttributes]
    exact Chain.branchAll_chain c _ x
  · intro others same
    refine ⟨?_, Chain.resolve_congr ?_ ?_ c x⟩
    · rw [text_renderAttributes, text_renderAttributes, same]
    · rw [conditionals_renderAttributes, conditionals_renderAttributes, conditionalsOf,
        conditionalsOf, same]
    · rw [loops_renderAttributes, loops_renderAttributes, loopsOf, loopsOf, same]

/-- Two loops, two conditionals and two inline attributes, class by class. -/
def sortedAttributes : List Token :=
  [.ofAttribute "wx:for" "\x7b\x7bas\x7d\x7d", .ofAttribute "wx:for" "\x7b\x7bbs\x7d\x7d",
    .ofAttribute "wx:if" "\x7b\x7bp\x7d\x7d", .ofAttribute "wx:else" "",
    .ofAttribute "bindtap" "go", .ofAttribute "wx:key" "id"]

/-- The same attributes, with the classes mixed. -/
def mixedAttributes : List Token :=
  [.ofAttribute "wx:if" "\x7b\x7bp\x7d\x7d", .ofAttribute "bindtap" "go",
    .ofAttribute "wx:for" "\x7b\x7bas\x7d\x7d", .ofAttribute "wx:else" "",
    .ofAttribute "wx:key" "id", .ofAttribute "wx:for" "\x7b\x7bbs\x7d\x7d"]

/-- Two orders of the same attributes that are the same class by class. The conditional and the
loops stand around the element in the way of their classes. -/
theorem resolve_mixedAttributes :
    (∀ k, ofClass k mixedAttributes = ofClass k sortedAttributes) ∧
      (renderAttributes mixedAttributes {}).1 = " onclick=\"go\" key=\"id\"" ∧
      Chain.resolve {} (renderAttributes mixedAttributes {}).2 "<A/>" =
        Chain.resolve {} (renderAttributes sortedAttributes {}).2 "<A/>" ∧
      (Chain.resolve {} (renderAttributes mixedAttributes {}).2 "<A/>").code =
        "<>\x7bas.map((item)=><>\x7bbs.map((item)=>?\x7bp?<A/>::null\x7d)\x7d</>)\x7d</>" ∧
      (Chain.resolve {} (renderAttributes mixedAttributes {}).2 "<A/>").chain.toList =
        [.opens, .closes] := by
  have same : ∀ k, ofClass k mixedAttributes = ofClass k sortedAttributes := by
    intro k
    cases k <;> rfl
  obtain ⟨-, code, -, -, free⟩ := resolve_renderAttributes sortedAttributes {} "<A/>"
  obtain ⟨text, resolved⟩ := free mixedAttributes same
  refine ⟨same, ?_, resolved, ?_, by decide +kernel⟩
  · rw [text]
    decide +kernel
  · rw [resolved, code]
    decide +kernel

end Wxml
