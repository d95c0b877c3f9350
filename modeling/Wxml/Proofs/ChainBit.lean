import Wxml.Proofs.ChainRun
import Wxml.Proofs.SiblingChains

/-!
# What a chain decides

A chain remembers every branch of a pass, and a pass asks it one thing only: whether it is open.
That answer is one bit. Here the bit is followed on its own (`Branch.leavesOpen`), and so is what a
branch adds to a chain (`Branch.remembered`); neither looks at the rest of the chain.

**The law** (`generate_of_isOpen_eq`): two chains that are both open or both closed give the same
code for every tree and grow by the same branches. What a chain held at the start stays under them
at every moment of the pass.

Trees need not be built by reading. A pass goes into a node only when its token opens an element, so
every tree has a twin that reading could have built (`Node.asBuilt`), with the same code and the
same chain behind it.

**Not established**: the notices of the two passes, which are not compared.
-/

namespace Wxml

/-! ## One branch -/

namespace Branch

/-- Whether a chain is open behind a branch. -/
def leavesOpen (b : Branch) (isOpen : Bool) : Bool :=
  match b with
  | .opens => true
  | .continues => isOpen
  | .closes => false

/-- What a chain remembers of a branch: an opening one when it is closed, the others when it is
open. -/
def remembered (b : Branch) (isOpen : Bool) : List Branch :=
  match b with
  | .opens => if isOpen then [] else [.opens]
  | b => if isOpen then [b] else []

end Branch

/-- What a chain remembers of some branches in a row. -/
def rememberedAll : Bool → List Branch → List Branch
  | _, [] => []
  | isOpen, b :: bs => b.remembered isOpen ++ rememberedAll (b.leavesOpen isOpen) bs

namespace Chain

theorem toList_push (c : Chain) (b : Branch) : (c.push b).toList = c.toList ++ [b] :=
  List.reverse_cons

/-- A step adds to what the chain holds, and the bit decides what. -/
theorem toList_meet (c : Chain) (b : Branch) :
    (c.meet b).toList = c.toList ++ b.remembered c.isOpen := by
  cases hopen : c.isOpen with
  | true => cases b <;> simp [meet, Branch.remembered, hopen, toList_push]
  | false => cases b <;> simp [meet, Branch.remembered, hopen, toList_push]

/-- The bit behind a step is decided by the bit before it. -/
theorem isOpen_meet (c : Chain) (b : Branch) : (c.meet b).isOpen = b.leavesOpen c.isOpen := by
  cases hopen : c.isOpen with
  | true => cases b <;> simp [meet, Branch.leavesOpen, hopen]
  | false => cases b <;> simp [meet, Branch.leavesOpen, hopen]

/-- **A run adds to a chain**, and only whether the chain is open decides what. What was there
before stays under it. -/
theorem toList_run (c : Chain) (bs : List Branch) :
    (bs.foldl meet c).toList = c.toList ++ rememberedAll c.isOpen bs := by
  induction bs generalizing c with
  | nil => exact (List.append_nil _).symm
  | cons b bs ih =>
    rw [List.foldl_cons, ih, toList_meet, isOpen_meet, rememberedAll, List.append_assoc]

/-- Chains with the same bit have the same bit behind every run. With `toList_run` this is the law
for branches without a tree around them. -/
theorem isOpen_run {c d : Chain} (same : c.isOpen = d.isOpen) (bs : List Branch) :
    (bs.foldl meet c).isOpen = (bs.foldl meet d).isOpen := by
  induction bs generalizing c d with
  | nil => exact same
  | cons b bs ih =>
    have hstep : (c.meet b).isOpen = (d.meet b).isOpen := by rw [isOpen_meet, isOpen_meet, same]
    exact ih hstep

/-- A branch asks the chain for nothing but the bit, whether it is written or passed over. -/
theorem code_branch_of_isOpen_eq {c d : Chain} (same : c.isOpen = d.isOpen) (b : Branch)
    (e code : String) : (c.branch b e code).code = (d.branch b e code).code := by
  rw [branch_code, branch_code, same]

/-- The conditionals of an element. The bit behind each of them is the same for both chains. -/
theorem code_branchAll_of_isOpen_eq {c d : Chain} (same : c.isOpen = d.isOpen)
    (branches : List (Branch × String)) (code : String) :
    (c.branchAll branches code).code = (d.branchAll branches code).code := by
  induction branches generalizing c d code with
  | nil => rfl
  | cons branch branches ih =>
    obtain ⟨b, e⟩ := branch
    have hopen : (c.branch b e code).chain.isOpen = (d.branch b e code).chain.isOpen := by
      rw [branch_chain, branch_chain, isOpen_meet, isOpen_meet, same]
    simp only [branchAll]
    rw [code_branch_of_isOpen_eq same]
    exact ih hopen _

end Chain

/-! ## Trees as reading builds them -/

namespace Node

/-- Siblings, if the law holds of each: the chains behind the first one differ, but not in their
bit. -/
theorem code_generateAll_of_isOpen_eq {ns : List Node} (built : ∀ n ∈ ns, n.Built)
    (h : ∀ n ∈ ns, ∀ c d : Chain, c.isOpen = d.isOpen → (n.generate c).code = (n.generate d).code)
    {c d : Chain} (same : c.isOpen = d.isOpen) :
    (generateAll ns c).code = (generateAll ns d).code := by
  induction ns generalizing c d with
  | nil => rfl
  | cons n ns ih =>
    have first := h n List.mem_cons_self c d same
    -- the next node meets a chain that is as open as the other one
    have behind : (n.generate c).chain.isOpen = (n.generate d).chain.isOpen := by
      have hn := built n List.mem_cons_self
      rw [hn.generate_chain, hn.generate_chain]
      exact Chain.isOpen_run same _
    have others := ih (fun m hm => built m (List.mem_cons_of_mem _ hm))
      (fun m hm => h m (List.mem_cons_of_mem _ hm)) behind
    simp only [generateAll]
    rw [first, others]

/-- A tree as reading builds it has the same code from both chains. The induction follows how it is
built. -/
theorem Built.code_of_isOpen_eq {n : Node} (h : n.Built) {c d : Chain}
    (same : c.isOpen = d.isOpen) : (n.generate c).code = (n.generate d).code := by
  refine h.induction (P := fun n => ∀ c d : Chain, c.isOpen = d.isOpen →
    (n.generate c).code = (n.generate d).code) (fun n built ih c d same => ?_) c d same
  have inside : ∀ m ∈ n.inside, m.Built := fun m hm => built.mem_inside hm
  have hcode := code_generateAll_of_isOpen_eq inside ih same
  have hopen : (generateAll n.inside c).chain.isOpen = (generateAll n.inside d).chain.isOpen := by
    rw [generateAll_chain fun m hm => (inside m hm).generate_chain,
      generateAll_chain fun m hm => (inside m hm).generate_chain]
    exact Chain.isOpen_run same _
  rw [(built.generate_eq c).1, (built.generate_eq d).1, hcode,
    Chain.code_branchAll_of_isOpen_eq hopen]

end Node

/-! ## All trees -/

namespace Node

mutual

/-- The tree that a pass sees, as reading would have built it: only opening tags have something
inside, and each of them has a place for it. -/
def asBuilt : Node → Node
  | .leaf t => if t.kind = .openTag then .element t [] else .leaf t
  | .element t children => if t.kind = .openTag then .element t (asBuiltAll children) else .leaf t

/-- The trees that a pass sees. -/
def asBuiltAll : List Node → List Node
  | [] => []
  | n :: ns => n.asBuilt :: asBuiltAll ns

end

mutual

/-- The tree that a pass sees could have been read. -/
theorem built_asBuilt (n : Node) : n.asBuilt.Built := by
  cases n with
  | leaf t =>
    rw [asBuilt]
    by_cases opens : t.kind = .openTag
    · rw [if_pos opens]
      exact .element opens fun m hm => absurd hm List.not_mem_nil
    · rw [if_neg opens]
      exact .leaf opens
  | element t children =>
    rw [asBuilt]
    by_cases opens : t.kind = .openTag
    · rw [if_pos opens]
      exact .element opens (built_asBuiltAll children)
    · rw [if_neg opens]
      exact .leaf opens

theorem built_asBuiltAll (ns : List Node) : ∀ m ∈ asBuiltAll ns, m.Built := by
  cases ns with
  | nil =>
    intro m hm
    rw [asBuiltAll] at hm
    exact absurd hm List.not_mem_nil
  | cons n ns =>
    intro m hm
    rw [asBuiltAll] at hm
    rcases List.mem_cons.mp hm with rfl | hm
    · exact built_asBuilt n
    · exact built_asBuiltAll ns m hm

end

mutual

/-- A pass does the same with a tree and with the tree that it sees. What stands inside a token that
opens no element is not visited, and an opening tag without a place for children has none. -/
theorem generate_asBuilt (n : Node) (c : Chain) : n.asBuilt.generate c = n.generate c := by
  cases n with
  | leaf t =>
    rw [asBuilt]
    by_cases opens : t.kind = .openTag
    · rw [if_pos opens, generate, generate, opens]
      rfl
    · rw [if_neg opens]
  | element t children =>
    rw [asBuilt]
    by_cases opens : t.kind = .openTag
    · rw [if_pos opens, generate, generate, opens]
      exact congrArg t.wrap (generateAll_asBuiltAll children c)
    · rw [if_neg opens, generate, generate]
      cases hkind : t.kind with
      | openTag => exact absurd hkind opens
      | _ => rfl

/-- The same for trees in a row: the chain goes through them as through the trees that it sees. -/
theorem generateAll_asBuiltAll (ns : List Node) (c : Chain) :
    generateAll (asBuiltAll ns) c = generateAll ns c := by
  cases ns with
  | nil => rw [asBuiltAll]
  | cons n ns =>
    rw [asBuiltAll, generateAll, generateAll, generate_asBuilt n c, generateAll_asBuiltAll ns]

end

/-- **The chain behind any tree** is the run over the branches of the tree that the pass sees. For
trees that were read this is `Node.Built.generate_chain`. -/
theorem generate_chain (n : Node) (c : Chain) :
    (n.generate c).chain = n.asBuilt.met.foldl Chain.meet c := by
  rw [← generate_asBuilt]
  exact n.built_asBuilt.generate_chain c

end Node

/-- **A chain is one bit to a pass.** From two chains that are both open or both closed, every tree
gets the same code, and there is one list of branches by which both chains grow. Both passes are
runs over the same branches, and wherever such a run stands, the chain that it started from is what
the chain began with. -/
theorem generate_of_isOpen_eq (n : Node) {c d : Chain} (same : c.isOpen = d.isOpen) :
    (n.generate c).code = (n.generate d).code ∧
      (∃ pushed, (n.generate c).chain.toList = c.toList ++ pushed ∧
        (n.generate d).chain.toList = d.toList ++ pushed) ∧
      ∃ met : List Branch, (n.generate c).chain = met.foldl Chain.meet c ∧
        (n.generate d).chain = met.foldl Chain.meet d ∧
        ∀ seen, seen <+: met → ∃ pushed, (seen.foldl Chain.meet c).toList = c.toList ++ pushed ∧
          (seen.foldl Chain.meet d).toList = d.toList ++ pushed := by
  have grows : ∀ bs : List Branch, ∃ pushed, (bs.foldl Chain.meet c).toList = c.toList ++ pushed ∧
      (bs.foldl Chain.meet d).toList = d.toList ++ pushed := by
    intro bs
    refine ⟨rememberedAll c.isOpen bs, c.toList_run bs, ?_⟩
    rw [same]
    exact d.toList_run bs
  have hcode : (n.generate c).code = (n.generate d).code := by
    rw [← n.generate_asBuilt c, ← n.generate_asBuilt d]
    exact n.built_asBuilt.code_of_isOpen_eq same
  have hc := n.generate_chain c
  have hd := n.generate_chain d
  refine ⟨hcode, ?_, n.asBuilt.met, hc, hd, fun seen _ => grows seen⟩
  rw [hc, hd]
  exact grows n.asBuilt.met

/-- An element that continues a conditional, around one that closes it and one that opens another.
What a text holds is not seen. -/
def chainAcross : Node :=
  .element (.ofTag .openTag "a" [.ofAttribute "wx:elif" "x"])
    [.leaf (.ofTag .selfCloseTag "b" [.ofAttribute "wx:else" "y"]),
      .element ⟨.text, "t", .start, none, none⟩
        [.leaf (.ofTag .selfCloseTag "c" [.ofAttribute "wx:else" "z"])],
      .leaf (.ofTag .openTag "d" [.ofAttribute "wx:if" "z"])]

/-- A chain of one branch and one of four, both open. -/
theorem generate_chainAcross :
    Chain.isOpen ⟨[.opens]⟩ = Chain.isOpen ⟨[.continues, .opens, .closes, .opens]⟩ ∧
      (chainAcross.generate ⟨[.opens]⟩).code =
        (chainAcross.generate ⟨[.continues, .opens, .closes, .opens]⟩).code ∧
      (chainAcross.generate ⟨[.opens]⟩).chain.toList = [.opens] ++ [.closes, .opens, .continues] ∧
      (chainAcross.generate ⟨[.continues, .opens, .closes, .opens]⟩).chain.toList =
        [.opens, .closes, .opens, .continues] ++ [.closes, .opens, .continues] := by
  have same : Chain.isOpen ⟨[.opens]⟩ = Chain.isOpen ⟨[.continues, .opens, .closes, .opens]⟩ := rfl
  obtain ⟨code, ⟨pushed, first, second⟩, -⟩ := generate_of_isOpen_eq chainAcross same
  have hpushed : (chainAcross.generate ⟨[.opens]⟩).chain.toList =
      [.opens] ++ [.closes, .opens, .continues] := by decide +kernel
  have heq : pushed = [.closes, .opens, .continues] :=
    List.append_cancel_left (first.symm.trans hpushed)
  subst heq
  exact ⟨same, code, first, second⟩

end Wxml
