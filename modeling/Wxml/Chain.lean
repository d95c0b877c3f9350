import Wxml.Notice

/-!
# The chain of conditionals

Neighbouring `wx:if`, `wx:elseif` and `wx:else` elements form one conditional expression. The first
opens a brace that only the last closes, so what a branch becomes depends on the branches met
before it in the same pass. A chain remembers them all.

The chain is **open** when its latest branch opens or continues a conditional, and closed when it
is empty or its latest branch closes one:

- an opening branch is always written; it is remembered when the chain is closed;
- a continuing or closing branch is written and remembered when the chain is open, and otherwise
  leaves its element as it is.
-/

namespace Wxml

/-- The branches met so far, the latest first. -/
structure Chain where
  branches : List Branch := []
  deriving DecidableEq, Repr, Inhabited

namespace Chain

/-- The branches in the order in which they were met. -/
def toList (c : Chain) : List Branch := c.branches.reverse

/-- The latest branch. -/
def top? (c : Chain) : Option Branch := c.branches.head?

/-- Remembers a branch. -/
def push (c : Chain) (b : Branch) : Chain := ⟨b :: c.branches⟩

/-- Whether a conditional has been opened and not closed. -/
def isOpen (c : Chain) : Bool :=
  match c.top? with
  | some .opens => true
  | some .continues => true
  | _ => false

end Chain

/-- Generated code, the chain behind it, and what was noticed on the way. -/
structure Generated where
  code : String
  chain : Chain
  notices : List Notice := []
  deriving Repr

namespace Chain

/-- Wraps code in one branch of a conditional. -/
def branch (c : Chain) (b : Branch) (expression code : String) : Generated :=
  match b with
  | .opens =>
    ⟨"\x7b" ++ expression ++ "?" ++ code ++ ":", if c.isOpen then c else c.push .opens, []⟩
  | .continues =>
    if c.isOpen then ⟨expression ++ "?" ++ code ++ ":", c.push .continues, []⟩
    else ⟨code, c, [.strayContinuation expression]⟩
  | .closes =>
    if c.isOpen then ⟨expression ++ "?" ++ code ++ ":null\x7d", c.push .closes, []⟩
    else ⟨code, c, [.strayClosing]⟩

/-- Wraps code in the branch of a role, if the role is one. -/
def apply (c : Chain) (role : Role) (expression code : String) : Except DirectiveError Generated :=
  match role with
  | .branch b => .ok (c.branch b expression code)
  | role => .error (.notConditional role)

/-- Wraps code in some branches, in order. -/
def branchAll (c : Chain) : List (Branch × String) → String → Generated
  | [], code => ⟨code, c, []⟩
  | (b, e) :: rest, code =>
    let first := c.branch b e code
    let last := first.chain.branchAll rest first.code
    { last with notices := first.notices ++ last.notices }

end Chain

/-- Repeats code for every item of a list. -/
def repeatFor (code expression : String) : String :=
  "<>\x7b" ++ expression ++ ".map((item)=>" ++ code ++ ")\x7d</>"

/-- Wraps an element's code in its directives: first the conditionals, then, around them, the
loops. -/
def Chain.resolve (c : Chain) (queue : Queue) (code : String) : Generated :=
  let g := c.branchAll queue.conditionals code
  { g with code := queue.loops.foldl repeatFor g.code }

end Wxml
