/-!
# Reading a settings text

A settings text is read character by character. Its structure hangs on lines and columns, so the
reader counts both. Behind the last character stands an end mark, which no text can hold.
-/

namespace Wxml.Yaml

/-- Why a settings text cannot be read. -/
inductive Fault where
  /-- The text does not follow the rules of the language. -/
  | malformed
  /-- A number or a date does not exist, although it is spelled like one. -/
  | impossible (message : String)
  deriving DecidableEq, Repr, Inhabited

/-- Stands behind the last character. -/
def endMark : Char := '\x00'

/-- Whether a character ends a line. -/
def isBreak (c : Char) : Bool :=
  c == '\r' || c == '\n' || c == '\x85' || c == '\u2028' || c == '\u2029'

/-- Whether a character ends the lines of plain and block text. -/
def isLineEnd (c : Char) : Bool := c == '\n' || c == endMark || c == '\r' || c == '\x85'

/-- Whether a character lets an indicator stand alone. -/
def isGap (c : Char) : Bool := isLineEnd c || c == ' ' || c == '\t'

/-- Whether a text may hold a character. -/
def isAllowed (c : Char) : Bool :=
  let n := c.toNat
  n == 0x9 || n == 0xa || n == 0xd || (0x20 ≤ n && n ≤ 0x7e) || n == 0x85 ||
    (0xa0 ≤ n && n ≤ 0xd7ff) || (0xe000 ≤ n && n ≤ 0xfffd) || 0x10000 ≤ n

/-- The text still to be read, and where it starts. -/
structure Source where
  rest : List Char
  line : Nat := 0
  column : Nat := 0
  index : Nat := 0
  deriving Repr

namespace Source

/-- The character some places ahead, or the end mark. -/
def peek (s : Source) (ahead : Nat) : Char := s.rest.getD ahead endMark

/-- The next character, or the end mark. -/
def next (s : Source) : Char := s.peek 0

/-- The next characters, as many as there are. -/
def ahead (s : Source) (count : Nat) : List Char := s.rest.take count

/-- One character further on. A byte order mark takes no column. -/
def step (s : Source) : Source :=
  match s.rest with
  | [] => s
  | c :: rest =>
    if c == '\n' || c == '\x85' || c == '\u2028' || c == '\u2029' ||
        (c == '\r' && rest.head? != some '\n') then
      ⟨rest, s.line + 1, 0, s.index + 1⟩
    else if c == '\ufeff' then ⟨rest, s.line, s.column, s.index + 1⟩
    else ⟨rest, s.line, s.column + 1, s.index + 1⟩

/-- Some characters further on. -/
def forward (s : Source) : Nat → Source
  | 0 => s
  | count + 1 => s.step.forward count

/-- The longest run of characters that pass a test, and the text behind it. -/
def span (s : Source) (p : Char → Bool) : List Char × Source :=
  let run := s.rest.takeWhile p
  (run, s.forward run.length)

/-- Skips the characters that pass a test. -/
def skip (s : Source) (p : Char → Bool) : Source := (s.span p).2

/-- Reads a line break, if there is one. Most breaks are read as a line feed. -/
def lineBreak (s : Source) : List Char × Source :=
  let c := s.next
  if c == '\r' || c == '\n' || c == '\x85' then
    (['\n'], s.forward (if s.ahead 2 == ['\r', '\n'] then 2 else 1))
  else if c == '\u2028' || c == '\u2029' then ([c], s.step)
  else ([], s)

/-- Whether three marks that start or end a document stand next. -/
def atDocumentMark (s : Source) : Bool :=
  (s.ahead 3 == ['-', '-', '-'] || s.ahead 3 == ['.', '.', '.']) && isGap (s.peek 3)

/-- Reads the rest of a line that may hold a comment and nothing else. -/
def ignoredLine (s : Source) : Except Fault Source :=
  let s := s.skip (· == ' ')
  let s := if s.next == '#' then s.skip (!isLineEnd ·) else s
  if isBreak s.next || s.next == endMark then .ok s.lineBreak.2 else .error .malformed

/-- More steps than any loop over the rest of the text takes. -/
def fuel (s : Source) : Nat := s.rest.length + 2

end Source

end Wxml.Yaml
