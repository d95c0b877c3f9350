import Wxml.Yaml.Source

/-!
# Scalars

The three ways to write a text: between quotes, as plain words, and as a block of lines. In all of
them a single line break inside the text stands for a space and further ones for themselves, except
in literal blocks, which keep every line.

Loops carry a step count that the length of the text bounds.
-/

namespace Wxml.Yaml

/-! ## Quoted text -/

/-- What a character behind a backslash stands for. -/
def escapes : List (Char × Char) :=
  [('0', '\x00'), ('a', '\x07'), ('b', '\x08'), ('t', '\t'), ('\t', '\t'), ('n', '\n'),
    ('v', '\x0b'), ('f', '\x0c'), ('r', '\r'), ('e', '\x1b'), (' ', ' '), ('"', '"'), ('/', '/'),
    ('\\', '\\'), ('N', '\x85'), ('_', '\xa0'), ('L', '\u2028'), ('P', '\u2029')]

/-- How many digits of a code point follow a character behind a backslash. -/
def escapeDigits : List (Char × Nat) := [('x', 2), ('u', 4), ('U', 8)]

/-- The value of a hexadecimal digit. -/
def hexDigit? (c : Char) : Option Nat :=
  if '0' ≤ c ∧ c ≤ '9' then some (c.toNat - '0'.toNat)
  else if 'a' ≤ c ∧ c ≤ 'f' then some (c.toNat - 'a'.toNat + 10)
  else if 'A' ≤ c ∧ c ≤ 'F' then some (c.toNat - 'A'.toNat + 10)
  else none

/-- The number that some hexadecimal digits spell. -/
def hexValue? (cs : List Char) : Option Nat :=
  cs.foldlM (fun n c => (hexDigit? c).map (n * 16 + ·)) 0

namespace Source

/-- Skips blank lines inside quotes, and answers their breaks. -/
def quotedBreaks : Nat → Source → Except Fault (List Char × Source)
  | 0, _ => .error .malformed
  | fuel + 1, s => do
    if s.atDocumentMark then throw .malformed
    let s := s.skip fun c => c == ' ' || c == '\t'
    if isBreak s.next then
      let (line, s) := s.lineBreak
      let (more, s) ← quotedBreaks fuel s
      return (line ++ more, s)
    else return ([], s)

/-- Reads the blanks and line breaks between two words inside quotes. -/
def quotedGap (s : Source) : Except Fault (List Char × Source) := do
  let (blanks, s) := s.span fun c => c == ' ' || c == '\t'
  if s.next == endMark then throw .malformed
  if isBreak s.next then
    let (line, s) := s.lineBreak
    let (breaks, s) ← quotedBreaks s.fuel s
    if line != ['\n'] then return (line ++ breaks, s)
    else if breaks.isEmpty then return ([' '], s)
    else return (breaks, s)
  else return (blanks, s)

/-- Reads what a backslash inside double quotes stands for. -/
def escaped (s : Source) : Except Fault (List Char × Source) := do
  let c := s.next
  match escapes.lookup c with
  | some image => return ([image], s.step)
  | none =>
    match escapeDigits.lookup c with
    | some count =>
      let s := s.step
      let digits := s.ahead count
      if digits.length != count then throw .malformed
      match hexValue? digits with
      | some code => return ([Char.ofNat code], s.forward count)
      | none => throw .malformed
    | none =>
      if isBreak c then
        let (_, s) := s.lineBreak
        quotedBreaks s.fuel s
      else throw .malformed

/-- Reads a word inside quotes, up to a blank, a line break or the closing quote. -/
def quotedWord (double : Bool) : Nat → Source → Except Fault (List Char × Source)
  | 0, _ => .error .malformed
  | fuel + 1, s => do
    let (run, s) := s.span fun c =>
      !(isBreak c || c == ' ' || c == '\t' || c == '\'' || c == '"' || c == '\\')
    let c := s.next
    if !double && c == '\'' && s.peek 1 == '\'' then
      let (more, s) ← quotedWord double fuel (s.forward 2)
      return (run ++ '\'' :: more, s)
    else if (double && c == '\'') || (!double && (c == '"' || c == '\\')) then
      let (more, s) ← quotedWord double fuel s.step
      return (run ++ c :: more, s)
    else if double && c == '\\' then
      let (image, s) ← escaped s.step
      let (more, s) ← quotedWord double fuel s
      return (run ++ image ++ more, s)
    else return (run, s)

/-- Reads words and gaps up to the closing quote. -/
def quotedRest (quote : Char) : Nat → Source → Except Fault (List Char × Source)
  | 0, _ => .error .malformed
  | fuel + 1, s => do
    if s.next == quote then return ([], s.step)
    let (gap, s) ← quotedGap s
    let (word, s) ← quotedWord (quote == '"') s.fuel s
    let (more, s) ← quotedRest quote fuel s
    return (gap ++ word ++ more, s)

/-- Reads a quoted text. -/
def quoted (s : Source) : Except Fault (String × Source) := do
  let quote := s.next
  let s := s.step
  let (word, s) ← quotedWord (quote == '"') s.fuel s
  let (more, s) ← quotedRest quote s.fuel s
  return (String.ofList (word ++ more), s)

/-! ## Plain text -/

/-- How long a run of plain words without a blank is. -/
def plainLength (flow : Bool) : List Char → Nat
  | [] => 0
  | c :: rest =>
    let next := rest.headD endMark
    if c == ':' && !isGap next then plainLength flow rest + 1
    else if c == '?' then plainLength flow rest + 1
    else if isGap c || (!flow && c == ':' && isGap next) ||
        (flow && [',', ':', '?', '[', ']', '{', '}'].contains c) then 0
    else plainLength flow rest + 1

/-- Skips blank lines between plain words, and answers their breaks; nothing at a document mark. -/
def plainBreaks : Nat → Source → Option (List Char) × Source
  | 0, s => (none, s)
  | fuel + 1, s =>
    if s.next == ' ' then plainBreaks fuel s.step
    else if isBreak s.next then
      let (line, s) := s.lineBreak
      if s.atDocumentMark then (none, s)
      else
        match plainBreaks fuel s with
        | (some more, s) => (some (line ++ more), s)
        | (none, s) => (none, s)
    else (some [], s)

/-- Reads the blanks and line breaks between plain words. The flag says whether a line ended. -/
def plainGap (s : Source) : List Char × Source × Bool :=
  let (blanks, s) := s.span (· == ' ')
  if isBreak s.next then
    let (line, s) := s.lineBreak
    if s.atDocumentMark then ([], s, true)
    else
      match plainBreaks s.fuel s with
      | (none, s) => ([], s, true)
      | (some breaks, s) =>
        if line != ['\n'] then (line ++ breaks, s, true)
        else if breaks.isEmpty then ([' '], s, true)
        else (breaks, s, true)
  else (blanks, s, false)

/-- Reads plain words behind a gap. -/
def plainWords (flow : Bool) (indent : Int) :
    Nat → Source → List Char → Bool → List Char × Source × Bool
  | 0, s, _, ended => ([], s, ended)
  | fuel + 1, s, gap, ended =>
    if s.next == '#' then ([], s, ended)
    else
      let length := plainLength flow s.rest
      if length == 0 then ([], s, ended)
      else
        let run := s.ahead length
        let (gap', s, ended) := (s.forward length).plainGap
        if gap'.isEmpty || s.next == '#' || (!flow && (s.column : Int) < indent) then
          (gap ++ run, s, ended)
        else
          let (more, s, ended) := plainWords flow indent fuel s gap' ended
          (gap ++ run ++ more, s, ended)

/-- Reads a plain text. The flag says whether a line ended behind its last word. -/
def plain (s : Source) (flow : Bool) (indent : Int) : String × Source × Bool :=
  let (cs, s, ended) := plainWords flow indent s.fuel s [] false
  (String.ofList cs, s, ended)

/-! ## Blocks of lines -/

/-- What happens to the line breaks at the end of a block. -/
inductive Chomping where
  | strip
  | clip
  | keep
  deriving DecidableEq, Repr

/-- Reads the indicators behind the mark that starts a block: chomping and indentation, in any
order. -/
def blockIndicators (s : Source) : Except Fault (Chomping × Option Nat × Source) := do
  let chomping? (s : Source) : Option Chomping × Source :=
    if s.next == '+' then (some .keep, s.step)
    else if s.next == '-' then (some .strip, s.step)
    else (none, s)
  let increment? (s : Source) : Except Fault (Option Nat × Source) :=
    if '0' ≤ s.next ∧ s.next ≤ '9' then
      if s.next == '0' then .error .malformed
      else .ok (some (s.next.toNat - '0'.toNat), s.step)
    else .ok (none, s)
  let (chomping, s) := chomping? s
  let (increment, s) ← increment? s
  let (chomping, s) := if chomping.isSome then (chomping, s) else chomping? s
  if isBreak s.next || s.next == ' ' || s.next == endMark then
    return (chomping.getD .clip, increment, s)
  else throw .malformed

/-- Skips the blank lines at the start of a block. The answer is their breaks and the greatest
column that a blank reaches. -/
def blockIndentation : Nat → Nat → Source → List Char × Nat × Source
  | 0, widest, s => ([], widest, s)
  | fuel + 1, widest, s =>
    if s.next == ' ' then
      let s := s.step
      blockIndentation fuel (max widest s.column) s
    else if isBreak s.next then
      let (line, s) := s.lineBreak
      let (more, widest, s) := blockIndentation fuel widest s
      (line ++ more, widest, s)
    else ([], widest, s)

/-- Skips blanks up to a column. -/
def indentTo (indent : Nat) (s : Source) : Source :=
  s.forward ((s.rest.takeWhile (· == ' ')).length.min (indent - s.column))

/-- Skips blank lines inside a block, and answers their breaks. -/
def blockBreaks (indent : Nat) : Nat → Source → List Char × Source
  | 0, s => ([], s)
  | fuel + 1, s =>
    let s := s.indentTo indent
    if isBreak s.next then
      let (line, s) := s.lineBreak
      let (more, s) := blockBreaks indent fuel s
      (line ++ more, s)
    else ([], s)

/-- The lines of a block so far: its text, the break behind its last line, and the breaks of the
blank lines that follow. -/
structure Block where
  text : List Char
  lastBreak : List Char
  breaks : List Char

/-- Reads the lines of a block. -/
def blockLines (folded : Bool) (outermost : Bool) (indent : Nat) :
    Nat → Source → Block → Block × Source
  | 0, s, b => (b, s)
  | fuel + 1, s, b =>
    if s.column == indent && s.next != endMark then
      let flush := s.next != ' ' && s.next != '\t'
      let (line, s) := s.span (!isLineEnd ·)
      let (lineBreak, s) := s.lineBreak
      let (breaks, s) := blockBreaks indent s.fuel s
      let text := b.text ++ b.breaks ++ line
      if outermost && s.column == 0 && s.atDocumentMark then (⟨text, lineBreak, breaks⟩, s)
      else if s.column == indent && s.next != endMark then
        let joint :=
          if folded && lineBreak == ['\n'] && flush && s.next != ' ' && s.next != '\t' then
            if breaks.isEmpty then [' '] else []
          else lineBreak
        blockLines folded outermost indent fuel s ⟨text ++ joint, lineBreak, breaks⟩
      else (⟨text, lineBreak, breaks⟩, s)
    else (b, s)

/-- Reads a block of lines, given the indentation around it. -/
def block (s : Source) (around : Int) : Except Fault (String × Source) := do
  let folded := s.next == '>'
  let (chomping, increment, s) ← blockIndicators s.step
  let s ← s.ignoredLine
  let least := around + 1
  let (indent, breaks, s) :=
    match increment with
    | none =>
      let (breaks, widest, s) := blockIndentation s.fuel 0 s
      (max least.toNat widest, breaks, s)
    | some n =>
      let indent := (max least 1).toNat + n - 1
      let (breaks, s) := blockBreaks indent s.fuel s
      (indent, breaks, s)
  let outermost := least == 0 && increment.isNone
  let (b, s) := blockLines folded outermost indent s.fuel s ⟨[], [], breaks⟩
  let text :=
    match chomping with
    | .strip => b.text
    | .clip => b.text ++ b.lastBreak
    | .keep => b.text ++ b.lastBreak ++ b.breaks
  return (String.ofList text, s)

end Source

end Wxml.Yaml
