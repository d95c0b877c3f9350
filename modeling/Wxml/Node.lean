import Wxml.Notice

/-!
# Trees of tokens

A node is a token, alone or with the nodes inside it. The tree of a token list has one root: the
first token that is not a comment and, if it opens an element, everything up to its closing tag.
Nesting is read leniently. A closing tag closes the innermost open element whatever its name, and
elements still open at the end of the list end there. Comments are dropped.

`Node.grow` reads an element with the stack of the elements around it, so that it runs once through
the list.
-/

namespace Wxml

/-- A token, alone or with what stands inside it. -/
inductive Node where
  | leaf (token : Token)
  | element (token : Token) (children : List Node)
  deriving Repr, Inhabited

/-- The token of a node. -/
def Node.token : Node → Token
  | leaf t => t
  | element t _ => t

/-- The nodes inside a node, if it can have any. -/
def Node.children? : Node → Option (List Node)
  | leaf _ => none
  | element _ cs => some cs

/-- An element whose closing tag has not been met: its opening tag, and the nodes inside it so far,
the latest first. -/
structure Frame where
  opener : Token
  inside : List Node := []
  deriving Repr, Inhabited

namespace Frame

/-- The frame with one more node inside. -/
def add (f : Frame) (n : Node) : Frame := { f with inside := n :: f.inside }

/-- The element, taken as complete. -/
def close (f : Frame) : Node := .element f.opener f.inside.reverse

/-- The outermost of some nested frames, all taken as complete. -/
def closeAll (f : Frame) : List Frame → Node
  | [] => f.close
  | outer :: rest => (outer.add f.close).closeAll rest

end Frame

/-- What is noticed when a closing tag meets an element. -/
def Frame.closingNotices (f : Frame) (closing : Token) : List Notice :=
  if closing.value = f.opener.value then [] else [.mismatched f.opener closing]

/-- A node that was read, the tokens behind it, and what was noticed on the way. -/
structure Grown where
  node : Node
  rest : List Token
  notices : List Notice
  deriving Repr

namespace Node

/-- Reads the innermost of some nested elements, and then those around it, to the closing tag of
the outermost one. -/
def grow (f : Frame) (outer : List Frame) : List Token → Grown
  | [] => ⟨f.closeAll outer, [], (f :: outer).map fun g => .unclosed g.opener⟩
  | t :: ts =>
    match t.kind with
    | .closeTag =>
      match outer with
      | [] => ⟨f.close, ts, f.closingNotices t⟩
      | g :: gs =>
        let r := grow (g.add f.close) gs ts
        { r with notices := f.closingNotices t ++ r.notices }
    | .comment => grow f outer ts
    | .openTag => grow ⟨t, []⟩ (f :: outer) ts
    | _ => grow (f.add (.leaf t)) outer ts

/-- Reads the first node of a token list, unless the list holds only comments. -/
def read? : List Token → Option Grown
  | [] => none
  | t :: ts =>
    match t.kind with
    | .comment => read? ts
    | .openTag => some (grow ⟨t, []⟩ [] ts)
    | _ => some ⟨.leaf t, ts, []⟩

end Node

/-- A token list and how many of its tokens have been read. -/
structure TokenStream where
  tokens : List Token
  index : Nat := 0
  deriving Repr

/-- Why there is no token at a place. -/
inductive PeekError where
  /-- The place lies behind the last token. -/
  | behind (error : CompileError)
  /-- The place lies before the first token, even when counted from the end. -/
  | before
  deriving Repr

namespace TokenStream

/-- The end of the list, which is reported where the last token starts. -/
def endOfInput (s : TokenStream) : CompileError :=
  ⟨.endOfInput, s.tokens.getLast?.map (·.position)⟩

/-- How many tokens have not been read. -/
def remaining (s : TokenStream) : Nat := s.tokens.length - s.index

/-- The token some places ahead of the next one, or behind it. Places before the first token count
from the end of the list. -/
def peek (s : TokenStream) (ahead : Int) : Except PeekError Token :=
  let place := s.index + ahead
  let place := if place < 0 then place + s.tokens.length else place
  if place < 0 then .error .before
  else
    match s.tokens[place.toNat]? with
    | some t => .ok t
    | none => .error (.behind s.endOfInput)

/-- Reads one token. -/
def read (s : TokenStream) : Except CompileError Token × TokenStream :=
  match s.tokens[s.index]? with
  | some t => (.ok t, { s with index := s.index + 1 })
  | none => (.error s.endOfInput, s)

/-- Reads one node. Comments before it are read too, also when no node follows them. -/
def readNode (s : TokenStream) : Except CompileError Node × TokenStream × List Notice :=
  match Node.read? (s.tokens.drop s.index) with
  | some r => (.ok r.node, { s with index := s.tokens.length - r.rest.length }, r.notices)
  | none => (.error s.endOfInput, { s with index := max s.index s.tokens.length }, [])

/-- What is noticed about the tokens behind the root. -/
def leftoverNotices (rest : List Token) : List Notice :=
  match rest.filter (·.kind != .comment) with
  | [] => []
  | t :: ts => [.discarded (ts.length + 1) t.position]

/-- Reads the root. What follows it is noticed and left unread. -/
def parse (s : TokenStream) : Except CompileError Node × TokenStream × List Notice :=
  match s.readNode with
  | (.ok root, s', notices) =>
    (.ok root, s', notices ++ leftoverNotices (s'.tokens.drop s'.index))
  | failed => failed

end TokenStream

/-- The tree of a token list, and what was noticed on the way. -/
def Node.ofTokens (tokens : List Token) : Except CompileError Node × List Notice :=
  let (result, _, notices) := TokenStream.parse { tokens }
  (result, notices)

end Wxml
