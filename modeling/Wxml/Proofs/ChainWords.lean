import Mathlib.Computability.RegularExpressions
import Mathlib.Order.CompletePartialOrder
import Wxml.Proofs.ChainBit

/-!
# The words of a chain

A chain, read from its first branch to its latest, is a word over three letters. Not every word is
one: a conditional is opened before it is continued or closed, and it is closed before the next one
is opened. `chainPattern` writes this as a regular expression.

**The law** (`chains_reached`): the words of the chains that can be reached from an empty one are
those of the pattern, all of them and no others. It does not matter by which calls they are reached:
by queues that are resolved, or by passes over trees.

Both halves are told by the bit of the chain. What an open chain holds and what a closed one holds
are two languages, and a branch leads from the one of the bit before it to the one of the bit behind
it (`Branch.wordsOf_mul_remembered`). Words that are remembered whole between two bits make up a
language too, and these languages can be joined where their bits meet (`keptWords_mul_le`).

**Not established**: which word a given run leaves. That is `rememberedAll`; here all runs are taken
together.
-/

namespace Wxml

open Computability

/-! ## The pattern -/

/-- Conditionals that were opened, continued any number of times and closed; and behind them one
that is still open, or none. -/
def chainPattern : RegularExpression Branch :=
  .star (.char .opens * .star (.char .continues) * .char .closes) *
    (.char .opens * .star (.char .continues) + 1)

/-- A conditional that is still open. -/
def openedWords : Language Branch := {[.opens]} * {[.continues]}∗

/-- Conditionals one behind the other, all of them closed. -/
def closedWords : Language Branch := (openedWords * {[.closes]})∗

/-- What an open chain holds, and what a closed one holds. -/
def wordsOf : Bool → Language Branch
  | true => closedWords * openedWords
  | false => closedWords

/-- The pattern is the words of open chains and those of closed ones. This is where the regular
expression of the library is left for languages. -/
theorem matches_chainPattern : chainPattern.matches' = wordsOf true + wordsOf false := by
  show closedWords * (openedWords + 1) = closedWords * openedWords + closedWords
  rw [mul_add, mul_one]

/-! ## Chains hold words of the pattern -/

/-- What is remembered of a branch leads from one language to the other as the bit does. There are
six cases, one for each branch and each bit, and in three of them nothing is remembered. -/
theorem Branch.wordsOf_mul_remembered (b : Branch) (isOpen : Bool) :
    wordsOf isOpen * {b.remembered isOpen} ≤ wordsOf (b.leavesOpen isOpen) := by
  have hnothing (l : Language Branch) : l * {[]} ≤ l := (mul_one l).le
  cases isOpen with
  | true =>
    cases b with
    | opens => exact hnothing _
    | continues =>
      show closedWords * openedWords * {[.continues]} ≤ closedWords * openedWords
      rw [mul_assoc, openedWords, mul_assoc]
      exact mul_le_mul' le_rfl (mul_le_mul' le_rfl kstar_mul_le_kstar)
    | closes =>
      show closedWords * openedWords * {[.closes]} ≤ closedWords
      rw [mul_assoc]
      exact kstar_mul_le_kstar
  | false =>
    cases b with
    | opens => exact mul_le_mul' le_rfl (le_mul_of_one_le_right' one_le_kstar)
    | continues => exact hnothing _
    | closes => exact hnothing _

namespace Chain

/-- What a chain holds is a word for its bit. -/
def Worded (c : Chain) : Prop := c.toList ∈ wordsOf c.isOpen

/-- The step: what a branch adds leads to a word for the new bit. -/
theorem Worded.meet {c : Chain} (h : c.Worded) (b : Branch) : (c.meet b).Worded := by
  unfold Worded
  rw [toList_meet, isOpen_meet]
  exact b.wordsOf_mul_remembered c.isOpen (Language.append_mem_mul h rfl)

/-- Every run from an empty chain leaves a word of the pattern, by induction on its branches. -/
theorem worded_run (bs : List Branch) : (bs.foldl meet {}).Worded := by
  have keep : ∀ c : Chain, c.Worded → (bs.foldl meet c).Worded := by
    induction bs with
    | nil => exact fun c h => h
    | cons b bs ih => exact fun c h => ih _ (h.meet b)
  exact keep {} (Language.nil_mem_kstar _)

end Chain

/-! ## Words of the pattern are remembered whole -/

/-- Whether a chain is open behind some branches. -/
def leavesOpenAll (isOpen : Bool) (bs : List Branch) : Bool :=
  bs.foldl (fun isOpen b => b.leavesOpen isOpen) isOpen

theorem leavesOpenAll_append (isOpen : Bool) (bs ds : List Branch) :
    leavesOpenAll isOpen (bs ++ ds) = leavesOpenAll (leavesOpenAll isOpen bs) ds :=
  List.foldl_append

/-- What is remembered of two runs in a row: the second starts with the bit that the first one
leaves. -/
theorem rememberedAll_append (isOpen : Bool) (bs ds : List Branch) :
    rememberedAll isOpen (bs ++ ds) =
      rememberedAll isOpen bs ++ rememberedAll (leavesOpenAll isOpen bs) ds := by
  induction bs generalizing isOpen with
  | nil => rfl
  | cons b bs ih =>
    rw [List.cons_append, rememberedAll, ih, rememberedAll, List.append_assoc]
    rfl

/-- The words of which nothing is forgotten, by the bits in front of them and behind them. -/
def keptWords (before after : Bool) : Language Branch :=
  {w | rememberedAll before w = w ∧ leavesOpenAll before w = after}

/-- Words that are kept can be joined where their bits meet. -/
theorem keptWords_mul_le (before between after : Bool) :
    keptWords before between * keptWords between after ≤ keptWords before after := by
  rintro w ⟨u, ⟨hu, ubit⟩, v, ⟨hv, vbit⟩, rfl⟩
  constructor
  · show rememberedAll before (u ++ v) = u ++ v
    rw [rememberedAll_append, hu, ubit, hv]
  · show leavesOpenAll before (u ++ v) = after
    rw [leavesOpenAll_append, ubit, vbit]

/-- Words that are kept and lead back to their bit can be repeated. -/
theorem kstar_le_keptWords {l : Language Branch} {isOpen : Bool} (h : l ≤ keptWords isOpen isOpen) :
    l∗ ≤ keptWords isOpen isOpen := by
  have hempty : 1 ≤ keptWords isOpen isOpen := by
    rintro w rfl
    exact ⟨rfl, rfl⟩
  refine kstar_le_of_mul_le_left hempty ?_
  exact (mul_le_mul' le_rfl h).trans (keptWords_mul_le isOpen isOpen isOpen)

/-- A branch that is remembered alone is a word that is kept. -/
theorem singleton_le_keptWords {b : Branch} {before after : Bool}
    (kept : b.remembered before = [b]) (bit : b.leavesOpen before = after) :
    {[b]} ≤ keptWords before after := by
  rintro w rfl
  exact ⟨congrArg (· ++ []) kept, bit⟩

/-- Every word of the pattern is kept from a closed chain on. The proof is put together like the
pattern, with one law for each of its operators. -/
theorem wordsOf_le_keptWords (isOpen : Bool) : wordsOf isOpen ≤ keptWords false isOpen := by
  have hopens : {[.opens]} ≤ keptWords false true := singleton_le_keptWords rfl rfl
  have hcontinues : {[.continues]} ≤ keptWords true true := singleton_le_keptWords rfl rfl
  have hcloses : {[.closes]} ≤ keptWords true false := singleton_le_keptWords rfl rfl
  have hopened : openedWords ≤ keptWords false true :=
    (mul_le_mul' hopens (kstar_le_keptWords hcontinues)).trans (keptWords_mul_le _ _ _)
  have hclosed : closedWords ≤ keptWords false false :=
    kstar_le_keptWords ((mul_le_mul' hopened hcloses).trans (keptWords_mul_le _ _ _))
  cases isOpen with
  | true => exact (mul_le_mul' hclosed hopened).trans (keptWords_mul_le _ _ _)
  | false => exact hclosed

/-- **A chain that meets a word of the pattern holds it.** Nothing of the word is forgotten, so a
word is reached by meeting it. -/
theorem toList_run_of_matches {w : List Branch} (h : w ∈ chainPattern.matches') :
    (w.foldl Chain.meet {}).toList = w := by
  have hkept : rememberedAll false w = w := by
    rw [matches_chainPattern] at h
    rcases h with h | h
    · exact (wordsOf_le_keptWords true h).1
    · exact (wordsOf_le_keptWords false h).1
  rw [Chain.toList_run]
  exact hkept

/-! ## Calls -/

/-- **Calls of any kind reach the words of the pattern**, if the chain behind each of them is a run
over some branches, and there is a call for every branch alone. -/
theorem Chain.reached_iff {α : Type} {after : Chain → α → Chain} {met : α → List Branch}
    (runs : ∀ c a, after c a = (met a).foldl meet c) (call : Branch → α)
    (alone : ∀ b, met (call b) = [b]) (w : List Branch) :
    (∃ calls : List α, (calls.foldl after {}).toList = w) ↔ w ∈ chainPattern.matches' := by
  have hrun : ∀ calls : List α, calls.foldl after {} = (calls.flatMap met).foldl meet {} := by
    intro calls
    have hafter : after = fun c a => (met a).foldl meet c := funext₂ runs
    rw [List.foldl_flatMap, hafter]
  constructor
  · rintro ⟨calls, rfl⟩
    have hword := worded_run (calls.flatMap met)
    rw [← hrun] at hword
    rw [matches_chainPattern]
    unfold Worded at hword
    cases hopen : (calls.foldl after {}).isOpen with
    | true => exact .inl (hopen ▸ hword)
    | false => exact .inr (hopen ▸ hword)
  · intro hw
    have hmet : (w.map call).flatMap met = w := by
      rw [List.flatMap_map]
      simp only [alone]
      exact List.flatMap_singleton' w
    refine ⟨w.map call, ?_⟩
    rw [hrun, hmet]
    exact toList_run_of_matches hw

/-- The queue of some directives that were added one by one. -/
def Queue.filled (directives : List Directive) : Queue := directives.foldl push {}

namespace Chain

/-- The chain behind a queue that is resolved around some code. -/
def afterQueue (c : Chain) (call : Queue × String) : Chain := (c.resolve call.1 call.2).chain

/-- The chain behind directives that fill a queue, which is resolved around some code. -/
def afterDirectives (c : Chain) (call : List Directive × String) : Chain :=
  c.afterQueue (Queue.filled call.1, call.2)

/-- Resolving a queue is a run over its conditionals; loops and code leave the chain alone. -/
theorem afterQueue_eq (c : Chain) (call : Queue × String) :
    c.afterQueue call = (call.1.conditionals.map Prod.fst).foldl meet c :=
  c.branchAll_chain call.1.conditionals call.2

end Chain

/-- A call on a generator, which was made for one tree: the code of that tree, or of any other. -/
inductive GeneratorCall where
  | whole
  | node (tree : Node)

namespace GeneratorCall

/-- The chain behind a call on the generator of a tree. -/
def after (root : Node) (c : Chain) : GeneratorCall → Chain
  | whole => (root.generateRoot c).chain
  | node tree => (tree.generate c).chain

/-- The branches that a call on the generator of a tree meets. -/
def met (root : Node) : GeneratorCall → List Branch
  | whole => root.asBuilt.met
  | node tree => tree.asBuilt.met

/-- A call on a generator is a run over the branches that it meets, whatever tree it is for. -/
theorem after_eq (root : Node) (c : Chain) (call : GeneratorCall) :
    call.after root c = (call.met root).foldl Chain.meet c := by
  cases call with
  | whole => exact root.generate_chain c
  | node tree => exact tree.generate_chain c

end GeneratorCall

/-- An element with one branch and nothing else. -/
def Branch.element (b : Branch) : Node :=
  .leaf (.ofTag .selfCloseTag "a" [.ofAttribute ("wx:" ++ b.label) ""])

/-- One element with one branch is a call for that branch alone. -/
theorem Branch.met_element (b : Branch) : b.element.asBuilt.met = [b] := by
  cases b <;> decide +kernel

/-- **The chains that can be reached.** From an empty chain, the words that resolved queues can
leave on it are exactly those of the pattern, whatever the queues hold; queues that were filled by
adding directives are enough for all of them; and calls on the generator of any tree, for this tree
and for others, leave exactly the same words. -/
theorem chains_reached (root : Node) (w : List Branch) :
    ((∃ calls : List (Queue × String), (calls.foldl Chain.afterQueue {}).toList = w) ↔
      w ∈ chainPattern.matches') ∧
    ((∃ calls : List (List Directive × String),
        (calls.foldl Chain.afterDirectives {}).toList = w) ↔
      w ∈ chainPattern.matches') ∧
    ((∃ calls : List GeneratorCall, (calls.foldl (GeneratorCall.after root) {}).toList = w) ↔
      w ∈ chainPattern.matches') := by
  refine ⟨?_, ?_, ?_⟩
  · have alone : ∀ b : Branch, (Queue.conditionals ⟨[.branch b ""]⟩).map Prod.fst = [b] :=
      fun _ => rfl
    exact Chain.reached_iff Chain.afterQueue_eq (fun b => (⟨[.branch b ""]⟩, "")) alone w
  · have alone : ∀ b : Branch, (Queue.filled [.branch b ""]).conditionals.map Prod.fst = [b] :=
      fun _ => rfl
    exact Chain.reached_iff (fun c call => c.afterQueue_eq (Queue.filled call.1, call.2))
      (fun b => ([.branch b ""], "")) alone w
  · exact Chain.reached_iff (GeneratorCall.after_eq root) (fun b => .node b.element)
      Branch.met_element w

end Wxml
