import Wxml.Proofs.Generation

/-!
# What a chain of siblings can hold

Conditionals are written for siblings: one that opens, some that continue, one that closes. The
chain, though, runs through the whole tree and meets what is inside an element before the element
itself. `Node.rendering` is the code that the siblings alone ask for: every conditional is written,
whatever the chain says.

**The law** (`generate_eq_rendering_iff`): on a tree whose conditionals form complete chains of
neighbours, generation agrees with that rendering exactly when no branch that continues or closes a
chain has a conditional inside. Such a conditional belongs to a complete chain of its own, which
leaves the chain closed (`closed_of_inside`), and the branch around it is not written. The loss
shows in the length of the code: nothing that is left out is made up for elsewhere
(`length_generate_le`).

**Not established**: anything about trees whose chains are not complete, and about the code that is
written in place of the rendering, beyond that it is shorter.
-/

namespace Wxml

/-! ## Rendering without a chain -/

/-- Code as one branch of a conditional. -/
def Branch.wrap (b : Branch) (expression code : String) : String :=
  match b with
  | .opens => "\x7b" ++ expression ++ "?" ++ code ++ ":"
  | .continues => expression ++ "?" ++ code ++ ":"
  | .closes => expression ++ "?" ++ code ++ ":null\x7d"

/-- Code with all conditionals and loops of an element around it. -/
def Token.enclosed (t : Token) (code : String) : String :=
  t.repeated (t.branches.foldl (fun code branch => branch.1.wrap branch.2 code) code)

mutual

/-- The code of a node when every conditional is written. -/
def Node.rendering : Node → String
  | .leaf t => t.enclosed (t.body "")
  | .element t children => t.enclosed (t.body (Node.renderingAll children))

/-- The code of some nodes in a row when every conditional is written. -/
def Node.renderingAll : List Node → String
  | [] => ""
  | n :: ns => n.rendering ++ Node.renderingAll ns

end

/-- Leaves and elements alike, as for generation. -/
theorem Node.rendering_eq (n : Node) :
    n.rendering = n.token.enclosed (n.token.body (Node.renderingAll n.inside)) := by
  cases n <;> rfl

/-! ## Trees with complete chains -/

/-- Siblings whose conditionals form complete chains of neighbours: one opens, any number continue,
one closes. The flag says whether a chain is open in front of them. -/
inductive Chained : Bool → List Node → Prop
  | nil : Chained false []
  | plain {n : Node} {ns : List Node} (free : n.token.branches = []) (rest : Chained false ns) :
      Chained false (n :: ns)
  | opens {n : Node} {ns : List Node} {e : String} (one : n.token.branches = [(.opens, e)])
      (rest : Chained true ns) : Chained false (n :: ns)
  | continues {n : Node} {ns : List Node} {e : String} (one : n.token.branches = [(.continues, e)])
      (rest : Chained true ns) : Chained true (n :: ns)
  | closes {n : Node} {ns : List Node} {e : String} (one : n.token.branches = [(.closes, e)])
      (rest : Chained false ns) : Chained true (n :: ns)

/-- **A well-chained tree**: the root has no conditional, and the conditionals of all siblings form
complete chains. -/
structure Node.WellChained (root : Node) : Prop where
  free : root.token.branches = []
  chained : ∀ n ∈ root :: root.descendants, Chained false n.inside

/-- No branch that continues or closes a chain has a conditional inside. -/
def Node.ShallowBranches (root : Node) : Prop :=
  ∀ n ∈ root :: root.descendants, ∀ b e, (b, e) ∈ n.token.branches → b ≠ .opens →
    ∀ d ∈ n.descendants, d.token.branches = []

/-! ## One branch -/

namespace Chain

/-- A branch that opens a chain is always written, the others when a chain is open. When it is not
written, the code is left as it is. -/
theorem branch_code (c : Chain) (b : Branch) (e code : String) :
    (c.branch b e code).code = if b = .opens ∨ c.isOpen = true then b.wrap e code else code := by
  cases b with
  | opens => rfl
  | continues => by_cases h : c.isOpen = true <;> simp [branch, Branch.wrap, h]
  | closes => by_cases h : c.isOpen = true <;> simp [branch, Branch.wrap, h]

theorem isOpen_branch_opens (c : Chain) (e code : String) :
    (c.branch .opens e code).chain.isOpen = true := by
  by_cases h : c.isOpen = true
  · simp [branch, h]
  · simp only [branch, h, Bool.false_eq_true, if_false]
    rfl

/-- A continuing branch does not change whether the chain is open. -/
theorem isOpen_branch_continues (c : Chain) (e code : String) :
    (c.branch .continues e code).chain.isOpen = c.isOpen := by
  by_cases h : c.isOpen = true
  · simp only [branch, h, if_true]
    rfl
  · simp [branch, h]

theorem isOpen_branch_closes (c : Chain) (e code : String) :
    (c.branch .closes e code).chain.isOpen = false := by
  by_cases h : c.isOpen = true
  · simp only [branch, h, if_true]
    rfl
  · simp [branch, h]

end Chain

/-! ## Without conditionals -/

/-- No node has a conditional, at any depth. -/
def Node.Free (n : Node) : Prop := ∀ d ∈ n :: n.descendants, d.token.branches = []

/-- Siblings that leave the chain alone and are written in full, one by one, are so together. -/
theorem generateAll_of_forall {ns : List Node} {c : Chain}
    (h : ∀ n ∈ ns, (n.generate c).code = n.rendering ∧ (n.generate c).chain = c) :
    (Node.generateAll ns c).code = Node.renderingAll ns ∧ (Node.generateAll ns c).chain = c := by
  induction ns with
  | nil => exact ⟨rfl, rfl⟩
  | cons n ns ih =>
    obtain ⟨hcode, hchain⟩ := h n List.mem_cons_self
    obtain ⟨hcodes, hchains⟩ := ih fun m hm => h m (List.mem_cons_of_mem _ hm)
    rw [Node.generateAll, Node.renderingAll]
    simp only [hcode, hchain, hcodes, hchains, and_self]

/-- Without conditionals the chain is neither read nor changed, and the code is the rendering. The
induction goes from the nodes inside to the node. -/
theorem Node.Built.generate_of_free {n : Node} (h : n.Built) (free : n.Free) (c : Chain) :
    (n.generate c).code = n.rendering ∧ (n.generate c).chain = c := by
  refine h.induction (P := fun n => n.Free → (n.generate c).code = n.rendering ∧
    (n.generate c).chain = c) (fun n built ih free => ?_) free
  obtain ⟨hcode, hchain⟩ := generateAll_of_forall (c := c) fun m hm =>
    ih m hm (Node.forall_inside free hm)
  obtain ⟨hn, hn'⟩ := built.generate_eq c
  have hbranches := free n List.mem_cons_self
  rw [hn, hn', Node.rendering_eq, Token.enclosed, hbranches, hcode, hchain]
  exact ⟨rfl, rfl⟩

/-- Siblings without conditionals at any depth are written in full and do not touch the chain. -/
theorem generateAll_of_free {ns : List Node} (built : ∀ n ∈ ns, n.Built) (free : ∀ n ∈ ns, n.Free)
    (c : Chain) :
    (Node.generateAll ns c).code = Node.renderingAll ns ∧ (Node.generateAll ns c).chain = c :=
  generateAll_of_forall fun n hn => (built n hn).generate_of_free (free n hn) c

/-! ## A conditional inside closes the chain -/

/-- The siblings at every level below a node form complete chains. -/
def Node.ChainedWithin (n : Node) : Prop := ∀ d ∈ n :: n.descendants, Chained false d.inside

/-- The chain behind a node with one branch: what is inside comes first, then the branch. -/
theorem Node.Built.generate_chain_of_one {n : Node} (h : n.Built) {b : Branch} {e : String}
    (one : n.token.branches = [(b, e)]) (c : Chain) :
    (n.generate c).chain = ((Node.generateAll n.inside c).chain.branch b e
      (n.token.body (Node.generateAll n.inside c).code)).chain := by
  rw [(h.generate_eq c).2, one]
  rfl

/-- What is left open in front of some siblings, or opened inside them, is closed behind them. The
siblings form complete chains, so the last branch among them closes. -/
theorem isOpen_generateAll {o : Bool} {ns : List Node} (chained : Chained o ns)
    (built : ∀ n ∈ ns, n.Built)
    (inner : ∀ n ∈ ns, n.token.branches = [] → ¬ n.Free → ∀ c, (n.generate c).chain.isOpen = false)
    (reason : o = true ∨ ∃ n ∈ ns, ¬ n.Free) (c : Chain) :
    (Node.generateAll ns c).chain.isOpen = false := by
  -- siblings without conditionals keep a chain closed, the others close it
  have behind : ∀ {ns : List Node}, (∀ n ∈ ns, n.Built) →
      ((∃ n ∈ ns, ¬ n.Free) → ∀ c, (Node.generateAll ns c).chain.isOpen = false) →
      ∀ c, c.isOpen = false ∨ (∃ n ∈ ns, ¬ n.Free) →
        (Node.generateAll ns c).chain.isOpen = false := by
    intro ns built closes c hclosed
    by_cases deep : ∃ n ∈ ns, ¬ n.Free
    · exact closes deep c
    · have free : ∀ n ∈ ns, n.Free :=
        fun n hn => Classical.not_not.mp fun hfree => deep ⟨n, hn, hfree⟩
      rw [(generateAll_of_free built free c).2]
      exact hclosed.resolve_right deep
  induction chained generalizing c with
  | nil => simp at reason
  | @plain n ns free rest ih =>
    obtain ⟨-, built'⟩ := List.forall_mem_cons.mp built
    obtain ⟨closes, inner'⟩ := List.forall_mem_cons.mp inner
    apply behind built' fun deep => ih built' inner' (.inr deep)
    obtain ⟨m, hm, hfree⟩ := reason.resolve_left nofun
    rcases List.mem_cons.mp hm with rfl | hm
    · exact .inl (closes free hfree c)
    · exact .inr ⟨m, hm, hfree⟩
  | opens one rest ih =>
    exact ih (List.forall_mem_cons.mp built).2 (List.forall_mem_cons.mp inner).2 (.inl rfl) _
  | continues one rest ih =>
    exact ih (List.forall_mem_cons.mp built).2 (List.forall_mem_cons.mp inner).2 (.inl rfl) _
  | @closes n ns e one rest ih =>
    obtain ⟨builtFirst, built'⟩ := List.forall_mem_cons.mp built
    obtain ⟨-, inner'⟩ := List.forall_mem_cons.mp inner
    apply behind built' fun deep => ih built' inner' (.inr deep)
    left
    rw [builtFirst.generate_chain_of_one one]
    exact Chain.isOpen_branch_closes ..

/-- **A conditional inside a node closes the chain** before the node's own conditionals are met,
whatever the chain was. -/
theorem Node.Built.closed_of_inside {n : Node} (h : n.Built) (chained : n.ChainedWithin)
    (deep : ∃ m ∈ n.inside, ¬ m.Free) (c : Chain) :
    (Node.generateAll n.inside c).chain.isOpen = false := by
  refine h.induction (P := fun n => n.ChainedWithin → (∃ m ∈ n.inside, ¬ m.Free) →
    ∀ c, (Node.generateAll n.inside c).chain.isOpen = false) (fun n built ih chained deep c => ?_)
    chained deep c
  refine isOpen_generateAll (chained n List.mem_cons_self) (fun m hm => built.mem_inside hm) ?_
    (.inr deep) c
  intro m hm free hfree c
  rw [((built.mem_inside hm).generate_eq c).2, free]
  refine ih m hm (Node.forall_inside chained hm) ?_ c
  -- the node itself has no conditional, so one of those inside has
  refine Classical.byContradiction fun hnone => hfree ?_
  intro d hd
  rcases List.mem_cons.mp hd with rfl | hd
  · exact free
  · obtain ⟨k, hk, hd⟩ := Node.mem_descendants.mp hd
    exact Classical.byContradiction fun hd' => hnone ⟨k, hk, fun hkfree => hd' (hkfree d hd)⟩

/-! ## Nothing is made up for -/

/-- A branch adds the same length around any code. Lengths of code are compared by this, and by the
same fact for loops and tags. -/
theorem Branch.length_wrap (b : Branch) (e code : String) :
    (b.wrap e code).length = (b.wrap e "").length + code.length := by
  cases b <;> simp only [Branch.wrap, String.length_append, String.length_empty] <;> omega

theorem Branch.length_lt_wrap (b : Branch) (e code : String) :
    code.length < (b.wrap e code).length := by
  have hmark : "?".length = 1 := rfl
  cases b <;> simp only [Branch.wrap, String.length_append, hmark] <;> omega

theorem length_repeatFor (code e : String) :
    (repeatFor code e).length = (repeatFor "" e).length + code.length := by
  simp only [repeatFor, String.length_append, String.length_empty]
  omega

theorem Token.length_repeated (t : Token) (code : String) :
    (t.repeated code).length = (t.repeated "").length + code.length := by
  unfold Token.repeated
  induction t.loops with
  | nil => simp
  | cons e es ih =>
    rw [List.foldr_cons, List.foldr_cons, length_repeatFor, ih,
      length_repeatFor (es.foldr (fun e code => repeatFor code e) "")]
    omega

/-- So does the tag of an element. Lengths below are compared by these equations and not by
unfolding the code. -/
theorem Token.length_body {t : Token} (opens : t.kind = .openTag) (inside : String) :
    (t.body inside).length = (t.body "").length + inside.length := by
  simp only [Token.body, opens, String.length_append, String.length_empty]
  omega

/-- Conditionals written on demand are never longer than conditionals written always, and what the
code lacks before, it lacks behind. -/
theorem length_branchAll_le (branches : List (Branch × String)) {code full : String} {k : Nat}
    (h : code.length + k ≤ full.length) (c : Chain) :
    (c.branchAll branches code).code.length + k ≤
      (branches.foldl (fun code branch => branch.1.wrap branch.2 code) full).length := by
  induction branches generalizing c code full with
  | nil => exact h
  | cons branch branches ih =>
    obtain ⟨b, e⟩ := branch
    rw [Chain.branchAll, List.foldl_cons]
    refine ih ?_ _
    have hcode := Branch.length_wrap b e code
    have hfull := Branch.length_wrap b e full
    rw [Chain.branch_code]
    split <;> simp only <;> omega

/-- What the code inside a node lacks, the code with its tag lacks. A leaf has nothing inside and
lacks nothing. -/
theorem Node.Built.length_body_le {n : Node} (h : n.Built) {c : Chain} {k : Nat}
    (inside : (Node.generateAll n.inside c).code.length + k ≤ (Node.renderingAll n.inside).length) :
    (n.token.body (Node.generateAll n.inside c).code).length + k ≤
      (n.token.body (Node.renderingAll n.inside)).length := by
  cases h with
  | @leaf t plain =>
    have inside : "".length + k ≤ "".length := inside
    have hk : k = 0 := by simpa using inside
    rw [hk]
    exact Nat.le_refl _
  | @element t children opens _ =>
    have inside : (Node.generateAll children c).code.length + k ≤
      (Node.renderingAll children).length := inside
    show (t.body (Node.generateAll children c).code).length + k ≤
      (t.body (Node.renderingAll children)).length
    rw [Token.length_body opens, Token.length_body opens (Node.renderingAll children)]
    omega

/-- What the code inside a node lacks, the code of the node lacks: conditionals and loops around it
make up for nothing. -/
theorem Node.Built.length_generate_le {n : Node} (h : n.Built) {c : Chain} {k : Nat}
    (inside : (Node.generateAll n.inside c).code.length + k ≤ (Node.renderingAll n.inside).length) :
    (n.generate c).code.length + k ≤ n.rendering.length := by
  have hbranches := length_branchAll_le n.token.branches (h.length_body_le inside)
    (Node.generateAll n.inside c).chain
  rw [(h.generate_eq c).1, Node.rendering_eq, Token.enclosed, Token.length_repeated,
    Token.length_repeated n.token (List.foldl _ _ _)]
  omega

/-- The code of siblings is no longer than all conditionals written, if that of each is not. -/
theorem length_generateAll_le {ns : List Node}
    (h : ∀ n ∈ ns, ∀ c, (n.generate c).code.length ≤ n.rendering.length) (c : Chain) :
    (Node.generateAll ns c).code.length ≤ (Node.renderingAll ns).length := by
  induction ns generalizing c with
  | nil => exact Nat.le_refl _
  | cons n ns ih =>
    have hfirst := h n List.mem_cons_self c
    have hrest := ih (fun m hm => h m (List.mem_cons_of_mem _ hm)) (n.generate c).chain
    rw [Node.generateAll, Node.renderingAll, String.length_append, String.length_append]
    omega

/-- It is shorter, if that of one of them is shorter from every chain. The chain in front of that
one is not known. -/
theorem length_generateAll_lt {ns : List Node}
    (h : ∀ n ∈ ns, ∀ c, (n.generate c).code.length ≤ n.rendering.length)
    (short : ∃ n ∈ ns, ∀ c, (n.generate c).code.length < n.rendering.length) (c : Chain) :
    (Node.generateAll ns c).code.length < (Node.renderingAll ns).length := by
  induction ns generalizing c with
  | nil => simp at short
  | cons n ns ih =>
    have hothers := fun m (hm : m ∈ ns) => h m (List.mem_cons_of_mem _ hm)
    have hfirst := h n List.mem_cons_self c
    rw [Node.generateAll, Node.renderingAll, String.length_append, String.length_append]
    obtain ⟨m, hm, hshort⟩ := short
    rcases List.mem_cons.mp hm with rfl | hm
    · have hshort := hshort c
      have hrest := length_generateAll_le hothers (m.generate c).chain
      omega
    · have hrest := ih hothers ⟨m, hm, hshort⟩ (n.generate c).chain
      omega

/-- The code of a tree is never longer than all its conditionals written. -/
theorem Node.Built.length_le {n : Node} (h : n.Built) (c : Chain) :
    (n.generate c).code.length ≤ n.rendering.length := by
  refine h.induction (P := fun n => ∀ c, (n.generate c).code.length ≤ n.rendering.length)
    (fun n built ih c => ?_) c
  exact built.length_generate_le (k := 0) (length_generateAll_le ih c)

/-- A node in a complete chain has one branch at most. -/
theorem Chained.length_branches_le {o : Bool} {ns : List Node} (h : Chained o ns) {n : Node}
    (hn : n ∈ ns) : n.token.branches.length ≤ 1 := by
  have front : ∀ {m : Node} {ms : List Node}, m.token.branches.length ≤ 1 →
      (n ∈ ms → n.token.branches.length ≤ 1) → n ∈ m :: ms → n.token.branches.length ≤ 1 := by
    intro m ms hm hms hn
    rcases List.mem_cons.mp hn with rfl | hn
    · exact hm
    · exact hms hn
  induction h with
  | nil => cases hn
  | plain free rest ih => exact front (by simp [free]) ih hn
  | opens one rest ih => exact front (by simp [one]) ih hn
  | continues one rest ih => exact front (by simp [one]) ih hn
  | closes one rest ih => exact front (by simp [one]) ih hn

/-- A conditional somewhere below a node is in one of the trees inside it. -/
theorem Node.exists_not_free {n d : Node} (hd : d ∈ n.descendants)
    (branched : d.token.branches ≠ []) :
    ∃ m ∈ n.inside, ¬ m.Free := by
  obtain ⟨m, hm, hd⟩ := Node.mem_descendants.mp hd
  exact ⟨m, hm, fun free => branched (free d hd)⟩

/-- A branch with a conditional inside that does not open a chain is not written. The chain is
closed behind the inner conditional (`closed_of_inside`), so the code is shorter by what the branch
would add. -/
theorem Node.Built.length_lt_of_branch {n : Node} (h : n.Built) (chained : n.ChainedWithin)
    {b : Branch} {e : String} (one : n.token.branches = [(b, e)]) (later : b ≠ .opens)
    (deep : ∃ m ∈ n.inside, ¬ m.Free) (c : Chain) :
    (n.generate c).code.length < n.rendering.length := by
  have hclosed := h.closed_of_inside chained deep c
  have hbody := h.length_body_le (c := c) (k := 0)
    (length_generateAll_le (fun m hm => (h.mem_inside hm).length_le) c)
  have hwrap := b.length_lt_wrap e (n.token.body (Node.renderingAll n.inside))
  have hunwritten : ¬ (b = .opens ∨ (Node.generateAll n.inside c).chain.isOpen = true) := by
    simp [later, hclosed]
  rw [(h.generate_eq c).1, Node.rendering_eq, Token.enclosed, one, Token.length_repeated,
    Token.length_repeated n.token (List.foldl _ _ _), Chain.branchAll, Chain.branchAll,
    List.foldl_cons, List.foldl_nil, Chain.branch_code, if_neg hunwritten]
  exact Nat.add_lt_add_left (Nat.lt_of_le_of_lt hbody hwrap) _

/-- **What is not written is missing.** A branch that is left out somewhere in a tree makes the code
of the whole tree shorter, as nothing on the way up makes up for it. -/
theorem Node.Built.length_lt {n : Node} (h : n.Built) (chained : n.ChainedWithin)
    (single : n.token.branches.length ≤ 1) (deep : ¬ n.ShallowBranches) (c : Chain) :
    (n.generate c).code.length < n.rendering.length := by
  refine h.induction (P := fun n => n.ChainedWithin → n.token.branches.length ≤ 1 →
    ¬ n.ShallowBranches → ∀ c, (n.generate c).code.length < n.rendering.length)
    (fun n built ih chained single deep c => ?_) chained single deep c
  simp only [Node.ShallowBranches, Classical.not_forall] at deep
  obtain ⟨x, hx, b, e, hbranch, later, d, hd, hbranched⟩ := deep
  -- the branch that is not written is the node's own, or it lies in one of the nodes inside
  rcases List.mem_cons.mp hx with rfl | hx
  · obtain ⟨first, hfirst⟩ := List.length_eq_one_iff.mp
      (Nat.le_antisymm single (List.length_pos_of_mem hbranch))
    have one : x.token.branches = [(b, e)] := by
      rw [hfirst] at hbranch ⊢
      rw [List.mem_singleton.mp hbranch]
    exact built.length_lt_of_branch chained one later (Node.exists_not_free hd hbranched) c
  · obtain ⟨m, hm, hx⟩ := Node.mem_descendants.mp hx
    have hshort := ih m hm (Node.forall_inside chained hm)
      ((chained n List.mem_cons_self).length_branches_le hm)
      fun shallow => hbranched (shallow x hx b e hbranch later d hd)
    refine built.length_generate_le (k := 1) ?_
    exact length_generateAll_lt (fun m hm c => (built.mem_inside hm).length_le c) ⟨m, hm, hshort⟩ c

/-! ## Where nothing is missing -/

/-- A node whose one branch is written, and whose inside is written in full, is written in full. -/
theorem Node.Built.generate_of_written {n : Node} (h : n.Built) {b : Branch} {e : String}
    (one : n.token.branches = [(b, e)]) {c : Chain}
    (written : b = .opens ∨ (Node.generateAll n.inside c).chain.isOpen = true)
    (inside : (Node.generateAll n.inside c).code = Node.renderingAll n.inside) :
    (n.generate c).code = n.rendering := by
  rw [(h.generate_eq c).1, Node.rendering_eq, Token.enclosed, one, inside, Chain.branchAll,
    Chain.branchAll, List.foldl_cons, List.foldl_nil, Chain.branch_code, if_pos written]

theorem Node.Built.generate_of_plain {n : Node} (h : n.Built) (free : n.token.branches = [])
    {c : Chain} (inside : (Node.generateAll n.inside c).code = Node.renderingAll n.inside) :
    (n.generate c).code = n.rendering := by
  rw [(h.generate_eq c).1, Node.rendering_eq, Token.enclosed, free, inside]
  rfl

/-- A branch that does not open a chain finds the chain as the branch before it left it, since
nothing inside it has met the chain. -/
theorem Node.ShallowBranches.chain_inside {n : Node} (h : n.ShallowBranches) (built : n.Built)
    {b : Branch} {e : String} (one : n.token.branches = [(b, e)]) (later : b ≠ .opens) (c : Chain) :
    (Node.generateAll n.inside c).chain = c := by
  refine (generateAll_of_free (fun m hm => built.mem_inside hm) (fun m hm d hd => ?_) c).2
  have hbranch : (b, e) ∈ n.token.branches := by
    rw [one]
    exact List.mem_singleton_self _
  exact h n List.mem_cons_self b e hbranch later d (Node.mem_descendants.mpr ⟨m, hm, hd⟩)

/-- Siblings that form complete chains are written in full, if the nodes inside them are and the
branches that do not open a chain have no conditional inside. -/
theorem generateAll_eq_renderingAll {o : Bool} {ns : List Node} (chained : Chained o ns)
    (each : ∀ n ∈ ns, n.Built ∧ n.ShallowBranches ∧
      ∀ c, (Node.generateAll n.inside c).code = Node.renderingAll n.inside)
    (c : Chain) (ready : o = true → c.isOpen = true) :
    (Node.generateAll ns c).code = Node.renderingAll ns := by
  induction chained generalizing c with
  | nil => rfl
  | @plain n ns free rest ih =>
    obtain ⟨⟨built, -, inner⟩, others⟩ := List.forall_mem_cons.mp each
    rw [Node.generateAll, Node.renderingAll]
    simp only
    rw [built.generate_of_plain free (inner c), ih others _ nofun]
  | @opens n ns e one rest ih =>
    obtain ⟨⟨built, -, inner⟩, others⟩ := List.forall_mem_cons.mp each
    have hopen : (n.generate c).chain.isOpen = true := by
      rw [built.generate_chain_of_one one]
      exact Chain.isOpen_branch_opens ..
    rw [Node.generateAll, Node.renderingAll]
    simp only
    rw [built.generate_of_written one (.inl rfl) (inner c), ih others _ fun _ => hopen]
  | @continues n ns e one rest ih =>
    obtain ⟨⟨built, shallow, inner⟩, others⟩ := List.forall_mem_cons.mp each
    have hinside := shallow.chain_inside built one nofun c
    have hopen : (n.generate c).chain.isOpen = true := by
      rw [built.generate_chain_of_one one, hinside, Chain.isOpen_branch_continues]
      exact ready rfl
    rw [Node.generateAll, Node.renderingAll]
    simp only
    rw [built.generate_of_written one (.inr (by rw [hinside]; exact ready rfl)) (inner c),
      ih others _ fun _ => hopen]
  | @closes n ns e one rest ih =>
    obtain ⟨⟨built, shallow, inner⟩, others⟩ := List.forall_mem_cons.mp each
    have hinside := shallow.chain_inside built one nofun c
    rw [Node.generateAll, Node.renderingAll]
    simp only
    rw [built.generate_of_written one (.inr (by rw [hinside]; exact ready rfl)) (inner c),
      ih others _ nofun]

/-- A tree without conditionals inside later branches is written in full below its root. The
induction goes down the tree, with the siblings of each level done by
`generateAll_eq_renderingAll`. -/
theorem Node.Built.generateAll_inside {n : Node} (h : n.Built) (chained : n.ChainedWithin)
    (shallow : n.ShallowBranches) (c : Chain) :
    (Node.generateAll n.inside c).code = Node.renderingAll n.inside := by
  refine h.induction (P := fun n => n.ChainedWithin → n.ShallowBranches →
    ∀ c, (Node.generateAll n.inside c).code = Node.renderingAll n.inside)
    (fun n built ih chained shallow c => ?_) chained shallow c
  refine generateAll_eq_renderingAll (chained n List.mem_cons_self) (fun m hm => ?_) c nofun
  have shallow' : m.ShallowBranches := Node.forall_inside shallow hm
  exact ⟨built.mem_inside hm, shallow', ih m hm (Node.forall_inside chained hm) shallow'⟩

/-- **What chains of siblings can hold.** On a tree that was read from some tokens and whose
conditionals form complete chains of siblings, generation writes every conditional exactly when no
branch that continues or closes a chain has a conditional inside. -/
theorem generate_eq_rendering_iff {ts : List Token} {root : Node}
    (parsed : (Node.ofTokens ts).1 = .ok root) (chained : root.WellChained) :
    (root.generateRoot {}).code = root.rendering ↔ root.ShallowBranches := by
  have built := Node.built_of_ofTokens parsed
  constructor
  · intro heq
    refine Classical.byContradiction fun deep => ?_
    have single : root.token.branches.length ≤ 1 := by
      rw [chained.free]
      exact Nat.zero_le 1
    have hshort := built.length_lt chained.chained single deep {}
    have hequal : (root.generate {}).code.length = root.rendering.length :=
      congrArg String.length heq
    omega
  · intro shallow
    exact built.generate_of_plain chained.free (built.generateAll_inside chained.chained shallow {})

/-- A last branch with a complete chain inside. -/
def chainInBranch : Node :=
  .element (.ofTag .openTag "c" [.ofAttribute "wx:else" "y"])
    [.leaf (.ofTag .selfCloseTag "d" [.ofAttribute "wx:if" "p"]),
      .leaf (.ofTag .selfCloseTag "e" [.ofAttribute "wx:else" "q"])]

/-- A complete chain with that branch. -/
def nestedChains : Node :=
  .element (.ofTag .openTag "a")
    [.leaf (.ofTag .selfCloseTag "b" [.ofAttribute "wx:if" "x"]), chainInBranch]

/-- The inner chain closes the outer one, whose last branch is not written. -/
theorem generate_nestedChains :
    (∃ ts, (Node.ofTokens ts).1 = .ok nestedChains) ∧ nestedChains.WellChained ∧
      ¬ nestedChains.ShallowBranches ∧
      (nestedChains.generateRoot {}).code ≠ nestedChains.rendering := by
  have hb : (Token.ofTag .selfCloseTag "b" [.ofAttribute "wx:if" "x"]).branches =
      [(.opens, "x")] := by decide +kernel
  have hc : (Token.ofTag .openTag "c" [.ofAttribute "wx:else" "y"]).branches =
      [(.closes, "y")] := by decide +kernel
  have hd : (Token.ofTag .selfCloseTag "d" [.ofAttribute "wx:if" "p"]).branches =
      [(.opens, "p")] := by decide +kernel
  have he : (Token.ofTag .selfCloseTag "e" [.ofAttribute "wx:else" "q"]).branches =
      [(.closes, "q")] := by decide +kernel
  -- elements still open at the end of a list end there
  have parsed : (Node.ofTokens [.ofTag .openTag "a",
      .ofTag .selfCloseTag "b" [.ofAttribute "wx:if" "x"],
      .ofTag .openTag "c" [.ofAttribute "wx:else" "y"],
      .ofTag .selfCloseTag "d" [.ofAttribute "wx:if" "p"],
      .ofTag .selfCloseTag "e" [.ofAttribute "wx:else" "q"]]).1 = .ok nestedChains := rfl
  have chained : nestedChains.WellChained := by
    refine ⟨rfl, fun n hn => ?_⟩
    simp only [nestedChains, chainInBranch, Node.descendants, Node.withDescendants, List.mem_cons,
      List.append_nil, List.nil_append, List.not_mem_nil, or_false] at hn
    rcases hn with rfl | rfl | rfl | rfl | rfl
    · exact .opens hb (.closes hc .nil)
    · exact .nil
    · exact .opens hd (.closes he .nil)
    · exact .nil
    · exact .nil
  have deep : ¬ nestedChains.ShallowBranches := by
    intro shallow
    have hmem : chainInBranch ∈ nestedChains :: nestedChains.descendants := by
      simp [nestedChains, Node.descendants, Node.withDescendants]
    have hbranch : (Branch.closes, "y") ∈ chainInBranch.token.branches := by
      rw [chainInBranch, Node.token, hc]
      exact List.mem_singleton_self _
    have hfree := shallow chainInBranch hmem .closes "y" hbranch (by decide)
      (.leaf (.ofTag .selfCloseTag "d" [.ofAttribute "wx:if" "p"]))
      (by simp [chainInBranch, Node.descendants, Node.withDescendants])
    rw [Node.token, hd] at hfree
    cases hfree
  exact ⟨⟨_, parsed⟩, chained, deep,
    fun equal => deep ((generate_eq_rendering_iff parsed chained).mp equal)⟩

end Wxml
