import Wxml.Proofs.Generation

/-!
# A pass as a run of the chain

The chain looks only at which branches it meets. `Chain.meet` is one step of it, and `Node.met`
lists the branches of a tree in the order in which a pass meets them: those inside an element before
the element's own.

**The law** (`Node.Built.generate_chain`): the chain behind a tree is the run over the branches of
the tree. What holds of the chain of every pass is therefore what holds at the start and is kept by
a step. Here this is the count of branches: every conditional that was closed had been opened, and
one is open at most (`Chain.paired_run`).

**Not established**: anything about the code that is written. A run knows the branches and not the
expressions, and a branch that is not remembered may still have been written.
-/

namespace Wxml

namespace Chain

/-! ## One step -/

/-- The chain behind a branch. -/
def meet (c : Chain) : Branch → Chain
  | .opens => if c.isOpen then c else c.push .opens
  | .continues => if c.isOpen then c.push .continues else c
  | .closes => if c.isOpen then c.push .closes else c

/-- What becomes of the chain does not depend on the expression or the code. -/
theorem branch_chain (c : Chain) (b : Branch) (e code : String) :
    (c.branch b e code).chain = c.meet b := by
  cases b with
  | opens => rfl
  | continues => by_cases h : c.isOpen = true <;> simp [branch, meet, h]
  | closes => by_cases h : c.isOpen = true <;> simp [branch, meet, h]

/-- The conditionals of an element are a run of their own. -/
theorem branchAll_chain (c : Chain) (branches : List (Branch × String)) (code : String) :
    (c.branchAll branches code).chain = (branches.map Prod.fst).foldl meet c := by
  induction branches generalizing c code with
  | nil => rfl
  | cons branch branches ih =>
    obtain ⟨b, e⟩ := branch
    rw [branchAll, List.map_cons, List.foldl_cons, ← branch_chain c b e code]
    exact ih _ _

@[simp] theorem isOpen_push_opens (c : Chain) : (c.push .opens).isOpen = true := rfl

@[simp] theorem isOpen_push_continues (c : Chain) : (c.push .continues).isOpen = true := rfl

@[simp] theorem isOpen_push_closes (c : Chain) : (c.push .closes).isOpen = false := rfl

/-- A chain is closed when it is empty or its latest branch closes. This is how a chain is described
to those who only see its branches in order. -/
theorem isOpen_eq_false_iff (c : Chain) :
    c.isOpen = false ↔ c.toList = [] ∨ c.toList.getLast? = some .closes := by
  obtain ⟨branches⟩ := c
  cases branches with
  | nil => simp [isOpen, top?, toList]
  | cons b branches => cases b <;> simp [isOpen, top?, toList]

/-! ## Counting branches -/

/-- How often a branch has been remembered. -/
def pushed (c : Chain) (b : Branch) : Nat := c.toList.count b

/-- How many braces are still to be closed. -/
def owed (c : Chain) : Nat := if c.isOpen then 1 else 0

/-- No more than one brace is owed, however many were opened. -/
theorem owed_le_one (c : Chain) : c.owed ≤ 1 := by
  unfold owed
  split <;> decide

theorem pushed_push (c : Chain) (b d : Branch) :
    (c.push d).pushed b = c.pushed b + if d = b then 1 else 0 := by
  simp [pushed, push, toList, List.count_singleton]

/-- Every conditional that was closed had been opened, and what is open beyond them is owed. -/
def Paired (c : Chain) : Prop := c.pushed .opens = c.pushed .closes + c.owed

/-- The step: a branch that is remembered as an opening is owed, and one that is remembered as a
closing was owed before. All others change neither side. -/
theorem Paired.meet {c : Chain} (h : c.Paired) (b : Branch) : (c.meet b).Paired := by
  unfold Paired owed at *
  by_cases hopen : c.isOpen = true
  · rw [if_pos hopen] at h
    cases b with
    | opens => simp [Chain.meet, hopen, h]
    | continues => simp [Chain.meet, hopen, pushed_push, h]
    | closes => simp [Chain.meet, hopen, pushed_push, h]
  · rw [if_neg hopen] at h
    cases b with
    | opens => simp [Chain.meet, hopen, pushed_push, h]
    | continues => simp [Chain.meet, hopen, h]
    | closes => simp [Chain.meet, hopen, h]

/-- **What is opened is closed or owed**, in every run from an empty chain. The induction is on the
run, with `Paired.meet` as its step. -/
theorem paired_run (bs : List Branch) : (bs.foldl meet {}).Paired := by
  have keep : ∀ c : Chain, c.Paired → (bs.foldl meet c).Paired := by
    induction bs with
    | nil => exact fun c h => h
    | cons b bs ih => exact fun c h => ih _ (h.meet b)
  exact keep {} rfl

/-! ## Openings that are remembered -/

/-- Every opening branch of a run is remembered when it is met. -/
def RemembersOpenings (c : Chain) (bs : List Branch) : Prop :=
  ∀ before after, bs = before ++ .opens :: after →
    (before.foldl meet c).meet .opens = (before.foldl meet c).push .opens

/-- Remembering every opening is a property of the first branch and of the run behind it. The
inductions on runs use it in this form. -/
theorem remembersOpenings_cons (c : Chain) (b : Branch) (bs : List Branch) :
    c.RemembersOpenings (b :: bs) ↔
      (b = .opens → c.meet .opens = c.push .opens) ∧ (c.meet b).RemembersOpenings bs := by
  constructor
  · intro h
    constructor
    · rintro rfl
      exact h [] bs rfl
    · rintro before after rfl
      exact h (b :: before) after rfl
  · rintro ⟨first, others⟩ before after hsplit
    cases before with
    | nil =>
      injection hsplit with hb _
      exact first hb
    | cons d before =>
      injection hsplit with hd hbs
      subst hd
      exact others before after hbs

/-- The openings that a chain remembers grow by one when an opening is met and remembered, and not
otherwise. -/
theorem pushed_meet (c : Chain) (b : Branch) :
    (c.meet b).pushed .opens =
      c.pushed .opens + if b = .opens ∧ c.meet .opens = c.push .opens then 1 else 0 := by
  have hne : c ≠ c.push .opens := by
    intro h
    have hcount := congrArg (pushed · .opens) h
    simp [pushed_push] at hcount
  by_cases hopen : c.isOpen = true
  · cases b <;> simp [meet, hopen, pushed_push, hne]
  · cases b <;> simp [meet, hopen, pushed_push]

/-- **A run remembers at most its openings**, and as many only when it remembers each. -/
theorem pushed_run (c : Chain) (bs : List Branch) :
    (bs.foldl meet c).pushed .opens ≤ c.pushed .opens + bs.count .opens ∧
      (c.RemembersOpenings bs ↔
        (bs.foldl meet c).pushed .opens = c.pushed .opens + bs.count .opens) := by
  induction bs generalizing c with
  | nil => simp [RemembersOpenings]
  | cons b bs ih =>
    obtain ⟨hle, hiff⟩ := ih (c.meet b)
    have hmeet := pushed_meet c b
    rw [remembersOpenings_cons, hiff, List.foldl_cons, List.count_cons]
    by_cases hb : b = .opens
    · by_cases hpush : c.meet .opens = c.push .opens
      · simp only [hb, hpush, and_self, if_true, beq_self_eq_true, true_imp_iff,
          true_and] at hmeet hle ⊢
        omega
      · simp only [hb, hpush, and_false, if_false, if_true, beq_self_eq_true, true_imp_iff,
          false_and, false_iff] at hmeet hle ⊢
        omega
    · simp only [hb, false_and, if_false, beq_iff_eq, false_imp_iff, true_and] at hmeet hle ⊢
      omega

/-- **A run closes what it meets** exactly when it remembers every opening and ends closed. An
opening that is met inside an open conditional is written and not remembered, and nothing closes
it. -/
theorem pushed_closes_eq_iff (bs : List Branch) :
    (bs.foldl meet {}).pushed .closes = bs.count .opens ↔
      RemembersOpenings {} bs ∧ (bs.foldl meet {}).isOpen = false := by
  obtain ⟨hle, hiff⟩ := pushed_run {} bs
  have hpaired := paired_run bs
  have hnone : ({} : Chain).pushed .opens = 0 := rfl
  unfold Paired owed at hpaired
  rw [hiff]
  by_cases hopen : (bs.foldl meet {}).isOpen = true
  · simp only [hopen, if_true, Bool.true_eq_false, and_false, iff_false] at hpaired ⊢
    omega
  · simp only [hopen, if_false, Bool.false_eq_true, and_true] at hpaired ⊢
    omega

end Chain

/-! ## The branches of a tree -/

mutual

/-- The branches of a tree in the order in which a pass meets them. -/
def Node.met : Node → List Branch
  | .leaf t => t.branches.map Prod.fst
  | .element t children => Node.metAll children ++ t.branches.map Prod.fst

/-- The branches of some trees in a row. -/
def Node.metAll : List Node → List Branch
  | [] => []
  | n :: ns => n.met ++ Node.metAll ns

end

/-- Leaves and elements alike: the branches inside a node come before its own. -/
theorem Node.met_eq (n : Node) :
    n.met = Node.metAll n.inside ++ n.token.branches.map Prod.fst := by
  cases n <;> rfl

/-- The chain behind some siblings is the run over their branches, if this holds of each of them. -/
theorem Node.generateAll_chain {ns : List Node} {c : Chain}
    (h : ∀ n ∈ ns, ∀ c, (n.generate c).chain = n.met.foldl Chain.meet c) :
    (Node.generateAll ns c).chain = (Node.metAll ns).foldl Chain.meet c := by
  induction ns generalizing c with
  | nil => rfl
  | cons n ns ih =>
    rw [Node.generateAll, Node.metAll, List.foldl_append, ← h n List.mem_cons_self c]
    exact ih fun m hm => h m (List.mem_cons_of_mem _ hm)

/-- **The chain behind a tree** is the run over the branches of the tree, whatever the code is. The
induction goes from the nodes inside to the node. -/
theorem Node.Built.generate_chain {n : Node} (h : n.Built) (c : Chain) :
    (n.generate c).chain = n.met.foldl Chain.meet c := by
  refine h.induction (P := fun n => ∀ c, (n.generate c).chain = n.met.foldl Chain.meet c)
    (fun n built ih c => ?_) c
  rw [(built.generate_eq c).2, Chain.branchAll_chain, Node.generateAll_chain ih, Node.met_eq,
    List.foldl_append]

/-! ## Counting the openings of a tree -/

/-- The attributes of an element. -/
def Token.elementAttributes (t : Token) : List Token :=
  if t.isElement then t.attributes.getD [] else []

/-- How many attributes of the elements of a tree open a conditional. -/
def Node.openings (n : Node) : Nat :=
  ((n :: n.descendants).flatMap (·.token.elementAttributes)).countP (·.value = "wx:if")

/-- The attribute that opens a conditional is known by its name alone. -/
theorem Role.ofName_eq_opens_iff (name : String) :
    Role.ofName name = .branch .opens ↔ name = "wx:if" := by
  constructor
  · intro h
    refine Decidable.byContradiction fun hname => ?_
    rw [Role.ofName, if_neg hname] at h
    repeat' split at h
    all_goals cases h
  · rintro rfl
    decide

/-- The conditional that an attribute of an element stands for. -/
def Token.branch? (t : Token) : Option (Branch × String) := t.directive?.bind Directive.branch?

/-- An attribute counts as an opening by its name alone. -/
theorem Token.count_branch? (t : Token) :
    (t.branch?.toList.map Prod.fst).count .opens = if t.value = "wx:if" then 1 else 0 := by
  rw [Token.branch?, Token.directive?]
  by_cases hname : t.value = "wx:if"
  · rw [if_pos hname, (Role.ofName_eq_opens_iff _).mpr hname]
    rfl
  · rw [if_neg hname]
    have hrole : Role.ofName t.value ≠ .branch .opens := mt (Role.ofName_eq_opens_iff _).mp hname
    cases hcase : Role.ofName t.value with
    | branch b =>
      cases b with
      | opens => exact absurd hcase hrole
      | continues => rfl
      | closes => rfl
    | _ => rfl

theorem Token.count_filterMap_branch? (attributes : List Token) :
    ((attributes.filterMap Token.branch?).map Prod.fst).count .opens =
      attributes.countP (·.value = "wx:if") := by
  induction attributes with
  | nil => rfl
  | cons a attributes ih =>
    have hfirst := a.count_branch?
    rw [List.countP_cons, ← ih]
    simp only [decide_eq_true_eq]
    rw [← hfirst]
    cases hbranch : a.branch? with
    | none => rw [List.filterMap_cons_none hbranch]; rfl
    | some branch =>
      rw [List.filterMap_cons_some hbranch, List.map_cons, List.count_cons, Option.toList_some,
        List.map_singleton, List.count_singleton]

/-- The branches of a token that open are its attributes with that name, if it is an element. -/
theorem Token.count_branches (t : Token) :
    (t.branches.map Prod.fst).count .opens = t.elementAttributes.countP (·.value = "wx:if") := by
  rw [Token.branches, Token.directives, Token.elementAttributes]
  by_cases helement : t.isElement = true
  · rw [if_pos helement, if_pos helement, Wxml.directives, List.filterMap_filterMap]
    exact Token.count_filterMap_branch? _
  · rw [if_neg helement, if_neg helement]
    rfl

/-- The openings that are met in some siblings are those of all nodes in them. -/
theorem Node.count_metAll {ns : List Node} (h : ∀ n ∈ ns, n.met.count .opens = n.openings) :
    (Node.metAll ns).count .opens =
      ((Node.withDescendants ns).flatMap (·.token.elementAttributes)).countP
        (·.value = "wx:if") := by
  induction ns with
  | nil => rfl
  | cons n ns ih =>
    rw [Node.metAll, Node.withDescendants, List.count_append, h n List.mem_cons_self,
      ih fun m hm => h m (List.mem_cons_of_mem _ hm), ← List.cons_append, List.flatMap_append,
      List.countP_append, Node.openings]

/-- **A pass meets every opening of the tree**, once each: as many as there are attributes with the
name that opens a conditional. -/
theorem Node.Built.count_met {n : Node} (h : n.Built) : n.met.count .opens = n.openings := by
  refine h.induction (P := fun n => n.met.count .opens = n.openings) fun n _ ih => ?_
  rw [Node.met_eq, List.count_append, Node.count_metAll ih, Token.count_branches, Node.openings,
    List.flatMap_cons, List.countP_append, Node.descendants_eq]
  exact Nat.add_comm _ _

end Wxml
