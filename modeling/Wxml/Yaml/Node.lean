import Wxml.Yaml.Tag
import Wxml.Yaml.Token

/-!
# The node of a settings text

A text holds at most one document, and a document is one node: a scalar, a sequence or a mapping.
Anchors name nodes, and an alias stands for the node that its anchor names; inside that node itself
the alias stands for nothing yet.

Every function takes a step count, which the number of tokens bounds, and answers with the node and
the tokens behind it.
-/

namespace Wxml.Yaml

/-- A node with its tag. -/
inductive Node where
  | scalar (tag : Tag) (text : String)
  | sequence (tag : Tag) (items : List Node)
  | mapping (tag : Tag) (fields : List (Node × Node))
  deriving Repr, Inhabited

/-- What an empty place stands for. -/
def Node.nothing : Node := .scalar .null ""

/-- The tag of a node. -/
def Node.tag : Node → Tag
  | scalar t _ => t
  | sequence t _ => t
  | mapping t _ => t

/-- The tokens still to be read, the nodes that have been named, and the heads that tag handles
stand for. -/
structure Parser where
  tokens : List Token
  anchors : List (String × Node) := []
  handles : List (String × String) := []

namespace Parser

/-- The handles that every document knows. -/
def commonHandles : List (String × String) := [("!", "!"), ("!!", "tag:yaml.org,2002:")]

/-- What may stand before a node. -/
structure Properties where
  anchor : Option String := none
  tag : Option String := none

/-- The next token. -/
def next? (p : Parser) : Option Token := p.tokens.head?

/-- Whether the next token is one of some tokens. -/
def sees (p : Parser) (ts : List Token) : Bool :=
  match p.next? with
  | some t => ts.contains t
  | none => false

/-- Behind the next token. -/
def advance (p : Parser) : Parser := { p with tokens := p.tokens.tail }

/-- Reads an anchor and a tag, in any order, each at most once. -/
def properties (p : Parser) : Except Fault (Properties × Parser) := do
  let full := fun (handle : Option String) (tail : String) =>
    match handle with
    | none => Except.ok tail
    | some h =>
      match p.handles.lookup h with
      | some head => .ok (head ++ tail)
      | none => .error Fault.malformed
  match p.tokens with
  | .anchor name :: .tag handle tail :: rest =>
    return (⟨some name, some (← full handle tail)⟩, { p with tokens := rest })
  | .tag handle tail :: .anchor name :: rest =>
    return (⟨some name, some (← full handle tail)⟩, { p with tokens := rest })
  | .anchor name :: rest => return (⟨some name, none⟩, { p with tokens := rest })
  | .tag handle tail :: rest =>
    return (⟨none, some (← full handle tail)⟩, { p with tokens := rest })
  | _ => return ({}, p)

/-- The tag of a collection. -/
def Properties.collectionTag (q : Properties) (suggested : Tag) : Tag :=
  match q.tag with
  | none => suggested
  | some "!" => suggested
  | some name => .ofName name

/-- The tag of a scalar. -/
def Properties.scalarTag (q : Properties) (text : String) (plain : Bool) : Tag :=
  match q.tag with
  | none => if plain then .ofPlain text else .text
  | some "!" => .ofPlain text
  | some name => .ofName name

/-- Names a node. -/
def name (p : Parser) (q : Properties) (n : Node) : Parser :=
  match q.anchor with
  | some a => { p with anchors := (a, n) :: p.anchors }
  | none => p

mutual

/-- Reads a node. Outside brackets it may be an indented collection, and behind a key also the items
of a sequence that is not indented. -/
def node (block indentless : Bool) : Nat → Parser → Except Fault (Node × Parser)
  | 0, _ => .error .malformed
  | fuel + 1, p => do
    if let some (.alias a) := p.next? then
      match p.anchors.lookup a with
      | some n => return (n, p.advance)
      | none => throw .malformed
    let (q, p) ← p.properties
    let p := p.name q .nothing
    let listTag := q.collectionTag .sequence
    let fieldTag := q.collectionTag .mapping
    let (n, p) ←
      match p.next? with
      | some .blockEntry =>
        if indentless then do
          let (items, p) ← indentlessItems fuel p
          pure (Node.sequence listTag items, p)
        else if q.anchor.isSome || q.tag.isSome then
          pure (.scalar (q.scalarTag "" (q.tag == none)) "", p)
        else throw .malformed
      | some (.scalar text plain) =>
        pure (.scalar (q.scalarTag text plain) text, p.advance)
      | some .flowSequenceStart => do
        let (items, p) ← flowItems true fuel p.advance
        pure (.sequence listTag items, p)
      | some .flowMappingStart => do
        let (fields, p) ← flowFields true fuel p.advance
        pure (.mapping fieldTag fields, p)
      | other =>
        if block && other == some .blockSequenceStart then do
          let (items, p) ← blockItems fuel p.advance
          pure (.sequence listTag items, p)
        else if block && other == some .blockMappingStart then do
          let (fields, p) ← blockFields fuel p.advance
          pure (.mapping fieldTag fields, p)
        else if q.anchor.isSome || q.tag.isSome then
          pure (.scalar (q.scalarTag "" (q.tag == none)) "", p)
        else throw .malformed
    return (n, p.name q n)

/-- Reads the items of an indented sequence. -/
def blockItems : Nat → Parser → Except Fault (List Node × Parser)
  | 0, _ => .error .malformed
  | fuel + 1, p => do
    if p.sees [.blockEntry] then
      let p := p.advance
      let (n, p) ←
        if p.sees [.blockEntry, .blockEnd] then pure (Node.nothing, p)
        else node true false fuel p
      let (more, p) ← blockItems fuel p
      return (n :: more, p)
    else if p.sees [.blockEnd] then return ([], p.advance)
    else throw .malformed

/-- Reads the items of a sequence that is not indented. -/
def indentlessItems : Nat → Parser → Except Fault (List Node × Parser)
  | 0, _ => .error .malformed
  | fuel + 1, p => do
    if p.sees [.blockEntry] then
      let p := p.advance
      let (n, p) ←
        if p.sees [.blockEntry, .key, .value, .blockEnd] then pure (Node.nothing, p)
        else node true false fuel p
      let (more, p) ← indentlessItems fuel p
      return (n :: more, p)
    else return ([], p)

/-- Reads the value behind a key of an indented mapping. -/
def blockValue : Nat → Parser → Except Fault (Node × Parser)
  | 0, _ => .error .malformed
  | fuel + 1, p =>
    if p.sees [.value] then
      let p := p.advance
      if p.sees [.key, .value, .blockEnd] then .ok (.nothing, p) else node true true fuel p
    else .ok (.nothing, p)

/-- Reads the fields of an indented mapping. -/
def blockFields : Nat → Parser → Except Fault (List (Node × Node) × Parser)
  | 0, _ => .error .malformed
  | fuel + 1, p => do
    if p.sees [.key] then
      let p := p.advance
      let (k, p) ←
        if p.sees [.key, .value, .blockEnd] then pure (Node.nothing, p)
        else node true true fuel p
      let (v, p) ← blockValue fuel p
      let (more, p) ← blockFields fuel p
      return ((k, v) :: more, p)
    else if p.sees [.value] then
      let (v, p) ← blockValue fuel p
      let (more, p) ← blockFields fuel p
      return ((.nothing, v) :: more, p)
    else if p.sees [.blockEnd] then return ([], p.advance)
    else throw .malformed

/-- Reads the value behind a key between brackets, up to a comma or the closing bracket. -/
def flowValue (close : Token) : Nat → Parser → Except Fault (Node × Parser)
  | 0, _ => .error .malformed
  | fuel + 1, p =>
    if p.sees [.value] then
      let p := p.advance
      if p.sees [.flowEntry, close] then .ok (.nothing, p) else node false false fuel p
    else .ok (.nothing, p)

/-- Reads the items of a sequence between brackets. A key starts a mapping of one field. -/
def flowItems (first : Bool) : Nat → Parser → Except Fault (List Node × Parser)
  | 0, _ => .error .malformed
  | fuel + 1, p => do
    if p.sees [.flowSequenceEnd] then return ([], p.advance)
    if !first && !p.sees [.flowEntry] then throw .malformed
    let p := if first then p else p.advance
    if p.sees [.key] then
      let p := p.advance
      let (k, p) ←
        if p.sees [.value, .flowEntry, .flowSequenceEnd] then pure (Node.nothing, p)
        else node false false fuel p
      let (v, p) ← flowValue .flowSequenceEnd fuel p
      let (more, p) ← flowItems false fuel p
      return (.mapping .mapping [(k, v)] :: more, p)
    else if p.sees [.flowSequenceEnd] then return ([], p.advance)
    else
      let (n, p) ← node false false fuel p
      let (more, p) ← flowItems false fuel p
      return (n :: more, p)

/-- Reads the fields of a mapping between braces. A key may lack its value. -/
def flowFields (first : Bool) : Nat → Parser → Except Fault (List (Node × Node) × Parser)
  | 0, _ => .error .malformed
  | fuel + 1, p => do
    if p.sees [.flowMappingEnd] then return ([], p.advance)
    if !first && !p.sees [.flowEntry] then throw .malformed
    let p := if first then p else p.advance
    if p.sees [.key] then
      let p := p.advance
      let (k, p) ←
        if p.sees [.value, .flowEntry, .flowMappingEnd] then pure (Node.nothing, p)
        else node false false fuel p
      let (v, p) ← flowValue .flowMappingEnd fuel p
      let (more, p) ← flowFields false fuel p
      return ((k, v) :: more, p)
    else if p.sees [.value] then
      let (v, p) ← flowValue .flowMappingEnd fuel p
      let (more, p) ← flowFields false fuel p
      return ((.nothing, v) :: more, p)
    else if p.sees [.flowMappingEnd] then return ([], p.advance)
    else
      let (k, p) ← node false false fuel p
      let (more, p) ← flowFields false fuel p
      return ((k, .nothing) :: more, p)

end

/-- Reads the instructions before a document: at most one version, which must be known, and handles,
each at most once. -/
def instructions (version : Bool) (handles : List (String × String)) :
    List Token → Except Fault (List (String × String) × List Token)
  | .instruction (.version major _) :: rest =>
    if version || major != 1 then .error .malformed else instructions true handles rest
  | .instruction (.handle handle head) :: rest =>
    if (handles.lookup handle).isSome then .error .malformed
    else instructions version ((handle, head) :: handles) rest
  | .instruction .other :: rest => instructions version handles rest
  | rest => .ok (handles ++ commonHandles, rest)

/-- Whether a document ends before a token. -/
def endsDocument : Option Token → Bool
  | none => true
  | some (.instruction _) => true
  | some .documentStart => true
  | some .documentEnd => true
  | _ => false

/-- Reads a document: started by a mark, or, where it is allowed, without one. -/
def document (implicit : Bool) (tokens : List Token) : Except Fault (Node × List Token) := do
  let fuel := 4 * tokens.length + 4
  let needsMark :=
    match tokens.head? with
    | some (.instruction _) => true
    | some .documentStart => true
    | _ => !implicit
  if needsMark then
    let (handles, rest) ← instructions false [] tokens
    match rest with
    | .documentStart :: rest =>
      if endsDocument rest.head? then return (.nothing, rest)
      let (n, p) ← node true false fuel { tokens := rest, handles }
      return (n, p.tokens)
    | _ => throw .malformed
  else
    let (n, p) ← node true false fuel { tokens, handles := commonHandles }
    return (n, p.tokens)

end Parser

/-- The node of a token list, which must hold at most one document. -/
def Node.ofTokens (tokens : List Token) : Except Fault (Option Node) := do
  if tokens.isEmpty then return none
  let (n, rest) ← Parser.document true tokens
  if rest.all (· == .documentEnd) then return some n else throw .malformed

end Wxml.Yaml
