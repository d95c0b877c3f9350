import Wxml.Chain
import Wxml.Node
import Wxml.TagName

/-!
# From trees to code

The code of an element is its tag with the inline attributes around the code of the nodes inside,
wrapped in the element's directives. One chain runs through the whole tree, from left to right,
and meets the branches inside an element before the element's own.
-/

namespace Wxml

/-- The inline text and the directives of a tag. -/
def Token.rendered (t : Token) : String × Queue := renderAttributes (t.attributes.getD []) {}

/-- Closes a tag around the code inside it and wraps it in its directives. -/
def Token.wrap (t : Token) (inside : Generated) : Generated :=
  let name := camelCase t.value
  let (text, queue) := t.rendered
  let g := inside.chain.resolve queue
    ("<" ++ name ++ text ++ ">" ++ inside.code ++ "</" ++ name ++ ">")
  { g with notices := inside.notices ++ g.notices }

/-- The code of a tag that has nothing inside. -/
def Token.single (t : Token) (chain : Chain) : Generated :=
  let (text, queue) := t.rendered
  chain.resolve queue ("<" ++ firstUpper t.value ++ text ++ "/>")

mutual

/-- The code of a node, starting from a chain. -/
def Node.generate : Node → Chain → Generated
  | .leaf t, chain =>
    match t.kind with
    | .openTag => t.wrap ⟨"", chain, []⟩
    | .selfCloseTag => t.single chain
    | .text => ⟨normalizeText t.value, chain, []⟩
    | _ => ⟨"", chain, []⟩
  | .element t children, chain =>
    match t.kind with
    | .openTag => t.wrap (Node.generateAll children chain)
    | .selfCloseTag => t.single chain
    | .text => ⟨normalizeText t.value, chain, []⟩
    | _ => ⟨"", chain, []⟩

/-- The code of some nodes in a row. -/
def Node.generateAll : List Node → Chain → Generated
  | [], chain => ⟨"", chain, []⟩
  | n :: ns, chain =>
    let first := n.generate chain
    let rest := Node.generateAll ns first.chain
    ⟨first.code ++ rest.code, rest.chain, first.notices ++ rest.notices⟩

end

/-- What is noticed at the end of a pass. -/
def Chain.endNotices (c : Chain) : List Notice :=
  if c.branches = [] then [] else [.chainLeft c.toList]

/-- One pass over a tree. The notices say which branches the pass left behind. -/
def Node.generateRoot (root : Node) (chain : Chain) : Generated :=
  let g := root.generate chain
  { g with notices := g.notices ++ g.chain.endNotices }

end Wxml
