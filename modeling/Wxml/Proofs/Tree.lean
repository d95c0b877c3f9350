import Wxml.Node

/-!
# Trees and the nodes in them

What is said of a whole tree is said in one of three ways: of its tokens in order (`Node.preorder`),
of the nodes in it (`Node.descendants`), or by induction from the nodes inside a node to the node
(`Node.Built.induction`). The last speaks of the trees that reading can build: what has something
inside is an opening tag.

**Not established**: that the three ways determine a tree. `Node.preorder` leaves open whether a
node without anything inside is an element or a leaf.
-/

namespace Wxml

/-! ## Trees, parents first -/

mutual

/-- The tokens of a tree with their depths, parents before children. -/
def Node.preorder (depth : Nat) : Node → List (Token × Nat)
  | .leaf t => [(t, depth)]
  | .element t children => (t, depth) :: Node.preorderAll (depth + 1) children

/-- The tokens of some trees in a row. -/
def Node.preorderAll (depth : Nat) : List Node → List (Token × Nat)
  | [] => []
  | n :: ns => n.preorder depth ++ Node.preorderAll depth ns

end

/-- Trees in a row are listed one after the other. -/
theorem Node.preorderAll_append (depth : Nat) (ns ms : List Node) :
    Node.preorderAll depth (ns ++ ms) = Node.preorderAll depth ns ++ Node.preorderAll depth ms := by
  induction ns with
  | nil => rfl
  | cons n ns ih => rw [List.cons_append, Node.preorderAll, Node.preorderAll, ih, List.append_assoc]

theorem Node.preorderAll_singleton (depth : Nat) (n : Node) :
    Node.preorderAll depth [n] = n.preorder depth := by
  rw [Node.preorderAll, Node.preorderAll, List.append_nil]

/-! ## The nodes inside a node -/

/-- The nodes inside a node. -/
def Node.inside (n : Node) : List Node := n.children?.getD []

mutual

/-- The nodes inside a node, at any depth. -/
def Node.descendants : Node → List Node
  | .leaf _ => []
  | .element _ children => Node.withDescendants children

/-- Some nodes and the nodes inside them, at any depth. -/
def Node.withDescendants : List Node → List Node
  | [] => []
  | n :: ns => n :: (n.descendants ++ Node.withDescendants ns)

end

/-- **A tree as reading builds it**: the nodes that have something inside, or could have, are those
of opening tags. -/
inductive Node.Built : Node → Prop
  | leaf {t : Token} (plain : t.kind ≠ .openTag) : Built (.leaf t)
  | element {t : Token} {children : List Node} (opens : t.kind = .openTag)
      (inside : ∀ n ∈ children, Built n) : Built (.element t children)

/-- Leaves and elements alike: the nodes in a node are those inside it and the nodes in these. -/
theorem Node.descendants_eq (n : Node) : n.descendants = Node.withDescendants n.inside := by
  cases n <;> rfl

/-- A node in one of some trees is the tree itself or a node in it. -/
theorem Node.mem_withDescendants {d : Node} {ns : List Node} :
    d ∈ Node.withDescendants ns ↔ ∃ n ∈ ns, d ∈ n :: n.descendants := by
  induction ns with
  | nil => simp [Node.withDescendants]
  | cons n ns ih =>
    rw [Node.withDescendants, ← List.cons_append, List.mem_append, ih]
    simp

/-- A node below another is inside it or below what is inside it. Inductions on trees go from the
nodes inside to the node in this way. -/
theorem Node.mem_descendants {n d : Node} :
    d ∈ n.descendants ↔ ∃ m ∈ n.inside, d ∈ m :: m.descendants := by
  rw [Node.descendants_eq]
  exact Node.mem_withDescendants

/-- What holds of a node and of all nodes inside it holds so of each node inside it. Hypotheses
about whole trees are handed down by this. -/
theorem Node.forall_inside {P : Node → Prop} {n m : Node} (h : ∀ d ∈ n :: n.descendants, P d)
    (hm : m ∈ n.inside) : ∀ d ∈ m :: m.descendants, P d := by
  intro d hd
  exact h d (List.mem_cons_of_mem _ (Node.mem_descendants.mpr ⟨m, hm, hd⟩))

/-- What is inside a tree that reading built, reading could have built alone. -/
theorem Node.Built.mem_inside {n m : Node} (h : n.Built) (hm : m ∈ n.inside) : m.Built := by
  cases h with
  | leaf => cases hm
  | element _ inside => exact inside m hm

/-- A property of built trees follows when it passes from the nodes inside a node to the node.
Leaves are the case with nothing inside, so that most proofs need no case split. -/
theorem Node.Built.induction {P : Node → Prop} {n : Node} (h : n.Built)
    (step : ∀ n : Node, n.Built → (∀ m ∈ n.inside, P m) → P n) : P n := by
  induction h with
  | leaf plain => exact step _ (.leaf plain) nofun
  | element opens inside ih => exact step _ (.element opens inside) ih

/-- Leaves and elements alike: a node's token, and then what is inside, one level deeper. -/
theorem Node.preorder_eq (n : Node) (depth : Nat) :
    n.preorder depth = (n.token, depth) :: Node.preorderAll (depth + 1) n.inside := by
  cases n <;> rfl

/-- A token is listed for some trees when it is listed for one of them. -/
theorem Node.mem_preorderAll {p : Token × Nat} {depth : Nat} {ns : List Node} :
    p ∈ Node.preorderAll depth ns ↔ ∃ n ∈ ns, p ∈ n.preorder depth := by
  induction ns with
  | nil => simp [Node.preorderAll]
  | cons n ns ih =>
    rw [Node.preorderAll, List.mem_append, ih]
    simp

/-- The token of every node of a tree is listed, at some depth. What is known of all tokens of a
list is known of all nodes by this. -/
theorem Node.Built.exists_mem_preorder {n d : Node} (h : n.Built) (hd : d ∈ n :: n.descendants)
    (depth : Nat) : ∃ k, (d.token, k) ∈ n.preorder depth := by
  refine h.induction (P := fun n => d ∈ n :: n.descendants →
    ∀ depth, ∃ k, (d.token, k) ∈ n.preorder depth) (fun n _ ih hd depth => ?_) hd depth
  rw [Node.preorder_eq]
  rcases List.mem_cons.mp hd with rfl | hd
  · exact ⟨depth, List.mem_cons_self⟩
  · obtain ⟨m, hm, hd⟩ := Node.mem_descendants.mp hd
    obtain ⟨k, hk⟩ := ih m hm hd (depth + 1)
    exact ⟨k, List.mem_cons_of_mem _ (Node.mem_preorderAll.mpr ⟨m, hm, hk⟩)⟩

/-! ## Trees with other tokens -/

mutual

/-- The tree with every token changed. -/
def Node.mapTokens (f : Token → Token) : Node → Node
  | .leaf t => .leaf (f t)
  | .element t children => .element (f t) (Node.mapTokensAll f children)

/-- The trees with every token changed. -/
def Node.mapTokensAll (f : Token → Token) : List Node → List Node
  | [] => []
  | n :: ns => n.mapTokens f :: Node.mapTokensAll f ns

end

/-- The list half of the mutual recursion is the library's `map`. -/
theorem Node.mapTokensAll_eq_map (f : Token → Token) (ns : List Node) :
    Node.mapTokensAll f ns = ns.map (Node.mapTokens f) := by
  induction ns with
  | nil => rfl
  | cons n ns ih => rw [Node.mapTokensAll, ih, List.map_cons]

end Wxml
