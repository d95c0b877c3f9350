import Wxml.Yaml.Scalar

/-!
# Tokens of a settings text

The indicators and scalars of a text in order, with the ends of indented collections made explicit.
A mapping key is recognised only at the colon behind it, so every token that could start a key is
remembered until its line ends (`Scanner.keys`); when the colon comes, the key mark is put in front
of it, and in front of that the start of the mapping, if the key is the first of its column.
-/

namespace Wxml.Yaml

/-- A line that instructs the reader. -/
inductive Instruction where
  | version (major minor : Nat)
  | handle (handle head : String)
  | other
  deriving DecidableEq, Repr

/-- A token. -/
inductive Token where
  | instruction (i : Instruction)
  | documentStart
  | documentEnd
  | blockSequenceStart
  | blockMappingStart
  | blockEnd
  | flowSequenceStart
  | flowSequenceEnd
  | flowMappingStart
  | flowMappingEnd
  | blockEntry
  | flowEntry
  | key
  | value
  | alias (name : String)
  | anchor (name : String)
  | tag (handle : Option String) (tail : String)
  | scalar (text : String) (plain : Bool)
  deriving DecidableEq, Repr

/-- A token that may turn out to be a key. -/
structure PossibleKey where
  /-- How many tokens stand before it. -/
  place : Nat
  /-- Whether nothing but a key can stand there. -/
  required : Bool
  index : Nat
  line : Nat
  column : Nat
  deriving Repr

/-- Where reading stands. -/
structure Scanner where
  source : Source
  /-- The brackets that are open, the innermost first. -/
  flow : List Char := []
  /-- The column of the innermost indented collection. -/
  indent : Int := -1
  /-- The columns of the collections around it, the innermost first. -/
  indents : List Int := []
  /-- Whether a key may start here. -/
  allowKey : Bool := true
  /-- The tokens that may turn out to be keys, by how many brackets are open around them. -/
  keys : List (Nat × PossibleKey) := []
  tokens : Array Token := #[]
  deriving Repr

namespace Scanner

/-- Whether no bracket is open. -/
def inBlock (s : Scanner) : Bool := s.flow.isEmpty

/-- How many brackets are open. -/
def depth (s : Scanner) : Nat := s.flow.length

/-- Adds a token. -/
def emit (s : Scanner) (t : Token) : Scanner := { s with tokens := s.tokens.push t }

/-- Moves on by some characters. -/
def forward (s : Scanner) (count : Nat) : Scanner :=
  { s with source := s.source.forward count }

/-- Skips blanks, comments and line ends. Behind a line end a key may start. -/
def toToken : Nat → Scanner → Scanner
  | 0, s => s
  | fuel + 1, s =>
    let c := s.source.next
    if c == ' ' || (c == '\t' && !s.inBlock) then toToken fuel (s.forward 1)
    else if c == '#' then toToken fuel { s with source := s.source.skip (!isLineEnd ·) }
    else if isBreak c then
      let s := { s with source := s.source.lineBreak.2 }
      toToken fuel (if s.inBlock then { s with allowKey := true } else s)
    else s

/-- Forgets possible keys that have become too long or whose line has ended. -/
def dropStale (s : Scanner) : Except Fault Scanner := do
  let stale := fun (k : PossibleKey) =>
    k.line != s.source.line || k.index + 1024 < s.source.index
  if s.keys.any fun (_, k) => stale k && k.required then throw .malformed
  return { s with keys := s.keys.filter fun (_, k) => !stale k }

/-- Forgets the possible key at this depth. -/
def dropKey (s : Scanner) : Except Fault Scanner := do
  match s.keys.lookup s.depth with
  | some k =>
    if k.required then throw .malformed
    return { s with keys := s.keys.filter (·.1 != s.depth) }
  | none => return s

/-- Remembers the next token as a possible key. -/
def saveKey (s : Scanner) : Except Fault Scanner := do
  if s.allowKey then
    let required := s.inBlock && s.indent == s.source.column
    let s ← s.dropKey
    let key : PossibleKey :=
      ⟨s.tokens.size, required, s.source.index, s.source.line, s.source.column⟩
    return { s with keys := (s.depth, key) :: s.keys }
  else return s

/-- Ends the collections that stand further right than a column. -/
def unwindTo (column : Int) (s : Scanner) : List Int → Scanner
  | [] => { s with indents := [] }
  | outer :: rest =>
    if s.indent > column then
      unwindTo column { s.emit .blockEnd with indent := outer } rest
    else { s with indents := outer :: rest }

/-- Ends the collections that stand further right than a column, outside brackets. -/
def unwind (s : Scanner) (column : Int) : Scanner :=
  if s.inBlock then s.unwindTo column s.indents else s

/-- Starts a collection at a column, if it is the innermost so far. -/
def addIndent (s : Scanner) (column : Nat) : Option Scanner :=
  if s.indent < column then
    some { s with indents := s.indent :: s.indents, indent := column }
  else none

/-- Starts a collection here, if this column has none. -/
def openBlock (s : Scanner) (start : Token) : Scanner :=
  match s.addIndent s.source.column with
  | some s => s.emit start
  | none => s

/-! ## Marks, instructions and brackets -/

/-- Characters of the name of an instruction or a handle. -/
def isWordChar (c : Char) : Bool := c.isAlphanum || c == '-' || c == '_'

/-- Reads the instruction behind a percent sign. -/
def instruction (s : Source) : Except Fault (Instruction × Source) := do
  let (name, s) := s.span fun c => isWordChar c || c == ':' || c == '.'
  if name.isEmpty then throw .malformed
  let standsAlone := fun (s : Source) => isBreak s.next || s.next == ' ' || s.next == endMark
  if !standsAlone s then throw .malformed
  let number := fun (s : Source) => do
    let (digits, s) := s.span Char.isDigit
    match (String.ofList digits).toNat? with
    | some n => pure (n, s)
    | none => throw Fault.malformed
  if name == "YAML".toList then
    let s := s.skip (· == ' ')
    let (major, s) ← number s
    if s.next != '.' then throw .malformed
    let (minor, s) ← number s.step
    if !standsAlone s then throw .malformed
    return (.version major minor, ← s.ignoredLine)
  else if name == "TAG".toList then
    let s := s.skip (· == ' ')
    let (handle, s) := s.span fun c => isWordChar c || c == '!'
    if handle.head? != some '!' || handle.getLast? != some '!' || s.next != ' ' then
      throw .malformed
    let s := s.skip (· == ' ')
    let (head, s) := s.span (!isGap ·)
    if head.isEmpty then throw .malformed
    return (.handle (String.ofList handle) (String.ofList head), ← s.ignoredLine)
  else return (.other, ← (s.skip (!isLineEnd ·)).ignoredLine)

/-- Ends all collections, before something that belongs to no document. -/
def leaveDocument (s : Scanner) : Except Fault Scanner := do
  let s ← (s.unwind (-1)).dropKey
  return { s with allowKey := false }

/-- Reads an instruction. -/
def readInstruction (s : Scanner) : Except Fault Scanner := do
  let s ← s.leaveDocument
  let (i, source) ← instruction s.source.step
  return { s.emit (.instruction i) with source := source }

/-- Reads the mark that starts or ends a document. -/
def readDocumentMark (s : Scanner) (t : Token) : Except Fault Scanner := do
  let s ← s.leaveDocument
  return (s.emit t).forward 3

/-- Reads an opening bracket. -/
def readFlowStart (s : Scanner) (t : Token) : Except Fault Scanner := do
  let s ← s.saveKey
  return { (s.emit t).forward 1 with flow := s.source.next :: s.flow, allowKey := true }

/-- Reads a closing bracket. -/
def readFlowEnd (s : Scanner) (t : Token) : Except Fault Scanner := do
  let s ← s.dropKey
  return { (s.emit t).forward 1 with flow := s.flow.tail, allowKey := false }

/-- Reads a comma between brackets. -/
def readFlowEntry (s : Scanner) : Except Fault Scanner := do
  let s ← { s with allowKey := true }.dropKey
  return (s.emit .flowEntry).forward 1

/-! ## Entries, keys and values -/

/-- Reads the dash that starts an item. -/
def readBlockEntry (s : Scanner) : Except Fault Scanner := do
  if s.inBlock && !s.allowKey then throw .malformed
  let s := if s.inBlock then s.openBlock .blockSequenceStart else s
  let s ← { s with allowKey := true }.dropKey
  return (s.emit .blockEntry).forward 1

/-- Reads the question mark that starts a key. -/
def readKey (s : Scanner) : Except Fault Scanner := do
  if s.inBlock && !s.allowKey then throw .malformed
  let s := if s.inBlock then s.openBlock .blockMappingStart else s
  let s ← { s with allowKey := s.inBlock }.dropKey
  return (s.emit .key).forward 1

/-- Reads the colon behind a key. -/
def readValue (s : Scanner) : Except Fault Scanner := do
  match s.keys.lookup s.depth with
  | some k =>
    let s := { s with keys := s.keys.filter (·.1 != s.depth), allowKey := false }
    let (s, marks) :=
      match (if s.inBlock then s.addIndent k.column else none) with
      | some s => (s, #[Token.blockMappingStart, Token.key])
      | none => (s, #[Token.key])
    let before := s.tokens.extract 0 k.place
    let behind := s.tokens.extract k.place s.tokens.size
    return ({ s with tokens := before ++ marks ++ behind }.emit .value).forward 1
  | none =>
    if s.inBlock && !s.allowKey then throw .malformed
    let s := if s.inBlock then s.openBlock .blockMappingStart else s
    let s ← { s with allowKey := s.inBlock }.dropKey
    return (s.emit .value).forward 1

/-! ## Names and scalars -/

/-- Characters of the name of an anchor. -/
def isAnchorChar (c : Char) : Bool :=
  let n := c.toNat
  !([',', '[', ']', '{', '}'].contains c) &&
    ((0x21 ≤ n && n ≤ 0x7e) || (0xa0 ≤ n && n ≤ 0xd7ff) ||
      (0xe000 ≤ n && n ≤ 0xfffd && n != 0xfeff) || 0x10000 ≤ n)

/-- Reads the name of an anchor or an alias. -/
def readName (s : Scanner) (token : String → Token) : Except Fault Scanner := do
  let s ← s.saveKey
  let (name, source) := s.source.step.span isAnchorChar
  if name.isEmpty then throw .malformed
  let next := source.next
  if !(isGap next || isBreak next ||
      ['?', ':', ',', '[', ']', '{', '}', '%', '@', '\x60'].contains next) then throw .malformed
  return { s.emit (token (String.ofList name)) with source := source, allowKey := false }

/-- Characters of a tag. -/
def isTagChar (c : Char) : Bool :=
  c.isAlphanum || "-;/?:@&=+$,_.!~*'()[]%#".toList.contains c

/-- Reads what stands between blanks as a tag: in angle brackets, after a handle, or alone. -/
def tagToken (s : Source) : Except Fault (Token × Source) := do
  let c := s.peek 1
  if c == '<' then
    let (tail, s) := (s.forward 2).span isTagChar
    if tail.isEmpty || s.next != '>' then throw .malformed
    return (.tag none (String.ofList tail), s.step)
  else if isGap c then return (.tag none "!", s.step)
  else
    let word := s.rest.drop 1 |>.takeWhile fun c => !(isBreak c || c == ' ')
    let head := word.takeWhile isWordChar
    if word.contains '!' then
      if (word.drop head.length).head? != some '!' then throw .malformed
      let handle := '!' :: head ++ ['!']
      let (tail, s) := (s.forward handle.length).span isTagChar
      if tail.isEmpty then throw .malformed
      return (.tag (some (String.ofList handle)) (String.ofList tail), s)
    else
      let (tail, s) := s.step.span isTagChar
      if tail.isEmpty then throw .malformed
      return (.tag (some "!") (String.ofList tail), s)

/-- Reads a tag. -/
def readTag (s : Scanner) : Except Fault Scanner := do
  let s ← s.saveKey
  let (t, source) ← tagToken s.source
  if !(isBreak source.next || source.next == ' ' || source.next == endMark) then throw .malformed
  return { s.emit t with source := source, allowKey := false }

/-- Reads a block of lines. -/
def readBlock (s : Scanner) : Except Fault Scanner := do
  let s ← { s with allowKey := true }.dropKey
  let (text, source) ← s.source.block s.indent
  return { s.emit (.scalar text false) with source := source }

/-- Reads a quoted text. -/
def readQuoted (s : Scanner) : Except Fault Scanner := do
  let s ← s.saveKey
  let (text, source) ← s.source.quoted
  return { s.emit (.scalar text false) with source := source, allowKey := false }

/-- Reads a plain text. -/
def readPlain (s : Scanner) : Except Fault Scanner := do
  let s ← s.saveKey
  let (text, source, ended) := s.source.plain (!s.inBlock) (s.indent + 1)
  return { s.emit (.scalar text true) with source := source, allowKey := ended }

/-! ## Which token comes next -/

/-- Whether a colon here ends a key. Between square brackets, and right behind another colon of a
collection that may still be a key, it must stand alone. -/
def atValue (s : Scanner) : Bool :=
  let alone := isGap (s.source.peek 1)
  match s.flow with
  | [] => alone
  | '[' :: _ => alone
  | _ => alone || s.keys.isEmpty || s.tokens.back? != some .value

/-- Whether a plain text can start here. -/
def atPlain (s : Scanner) : Bool :=
  let c := s.source.next
  let next := s.source.peek 1
  let marks := "-?:,[]\x7b\x7d#&*!|>'\"%@\x60".toList
  if !(isBreak c || c == ' ' || c == '\t' || c == endMark || marks.contains c) then true
  else if c == '-' then !isGap next
  else if c == ':' && !s.inBlock then next != ' ' && next != '\t'
  else s.inBlock && (c == '?' || c == ':') && !isGap next

/-- Reads the next token. Blanks have been skipped, and the text has not ended. -/
def readToken (s : Scanner) : Except Fault Scanner :=
  let c := s.source.next
  let next := s.source.peek 1
  let atMark := s.source.column == 0 && s.source.atDocumentMark
  if c == '%' && s.source.column == 0 then s.readInstruction
  else if c == '-' && atMark then s.readDocumentMark .documentStart
  else if c == '.' && atMark then s.readDocumentMark .documentEnd
  else if c == '[' then s.readFlowStart .flowSequenceStart
  else if c == '{' then s.readFlowStart .flowMappingStart
  else if c == ']' then s.readFlowEnd .flowSequenceEnd
  else if c == '}' then s.readFlowEnd .flowMappingEnd
  else if c == ',' then s.readFlowEntry
  else if c == '-' && isGap next then s.readBlockEntry
  else if c == '?' && (!s.inBlock || isGap next) then s.readKey
  else if c == ':' && s.atValue then s.readValue
  else if c == '*' then s.readName .alias
  else if c == '&' then s.readName .anchor
  else if c == '!' then s.readTag
  else if (c == '|' || c == '>') && s.inBlock then s.readBlock
  else if c == '\'' || c == '"' then s.readQuoted
  else if s.atPlain then s.readPlain
  else .error .malformed

/-- Reads the tokens up to the end of the text. -/
def readAll : Nat → Scanner → Except Fault (List Token)
  | 0, _ => .error .malformed
  | fuel + 1, s => do
    let s ← (s.toToken s.source.fuel).dropStale
    let s := s.unwind s.source.column
    if s.source.rest.isEmpty then
      let s ← s.leaveDocument
      return s.tokens.toList
    else readAll fuel (← s.readToken)

end Scanner

/-- The tokens of a settings text. A byte order mark at its start is skipped. -/
def Token.scan (text : String) : Except Fault (List Token) :=
  let cs := text.toList
  if cs.all isAllowed then
    let source : Source := { rest := cs }
    let source := if source.next == '\ufeff' then source.step else source
    Scanner.readAll (source.fuel + 1) { source }
  else .error .malformed

end Wxml.Yaml
