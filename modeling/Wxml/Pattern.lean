import Wxml.Text.Blank
import Wxml.Text.Lists
import Wxml.Text.Quoted

/-!
# Patterns of excluded paths

A pattern selects relative paths. Its parts between slashes each match one name of a path: a star
matches any characters, a question mark one, brackets one of some. Two stars match any number of
folders. A pattern without a slash inside matches at any depth, and one that ends in a slash only
folders. A path is excluded when the last pattern that selects it does not start with `!`.

A pattern is a row of pieces. What a piece means is the list of texts that may remain behind it
(`Piece.rests`), so a pattern selects a path when some text remains behind its last piece.
-/

namespace Wxml

/-- A piece of a pattern. -/
inductive Piece where
  /-- One given character. -/
  | exactly (c : Char)
  /-- One character other than a slash. -/
  | one
  /-- Any characters other than slashes. -/
  | many
  /-- At least one character, none of them a slash. -/
  | name
  /-- One character that is, or is not, in some ranges. -/
  | oneOf (negated : Bool) (ranges : Text.Ranges)
  /-- The folders at the start of a path, if any, each with its slash. -/
  | leadingFolders
  /-- Some folders inside a path, if any, each behind its slash. -/
  | innerFolders
  /-- A slash, or the end of the path. -/
  | boundary
  deriving DecidableEq, Repr

/-- Whether each range of a piece ends behind its start. -/
def Piece.isOrdered : Piece → Bool
  | oneOf _ ranges => ranges.all fun r => r.1 ≤ r.2
  | _ => true

/-- The texts behind each slash that has at least one character before it, on the same line. -/
def behindSlashes (started : Bool) : List Char → List (List Char)
  | [] => []
  | c :: cs =>
    (if started && c == '/' then [cs] else []) ++
      (if c == '\n' then [] else behindSlashes true cs)

/-- The texts behind the first character, the first two, and so on, to the end of the line. -/
def behindAny : List Char → List (List Char)
  | [] => []
  | c :: cs => if c == '\n' then [] else cs :: behindAny cs

/-- The texts behind no character, the first, the first two, and so on, up to a slash. -/
def behindMany : List Char → List (List Char)
  | [] => [[]]
  | c :: cs => (c :: cs) :: (if c == '/' then [] else behindMany cs)

/-- What may remain of a text behind a piece. -/
def Piece.rests : Piece → List Char → List (List Char)
  | exactly c, x :: xs => if x == c then [xs] else []
  | one, x :: xs => if x == '/' then [] else [xs]
  | many, cs => behindMany cs
  | name, x :: xs => if x == '/' then [] else behindMany xs
  | oneOf negated ranges, x :: xs => if ranges.covers x != negated then [xs] else []
  | leadingFolders, cs => cs :: behindSlashes false cs
  | innerFolders, '/' :: cs => ('/' :: cs) :: behindAny cs
  | innerFolders, cs => [cs]
  | boundary, '/' :: cs => [cs]
  | boundary, [] => [[]]
  | boundary, ['\n'] => [['\n']]
  | _, _ => []

/-- Whether a row of pieces matches the start of a text. -/
def Piece.matchAll (pieces : List Piece) (cs : List Char) : Bool :=
  !(pieces.foldl (fun rests piece => (rests.flatMap piece.rests).eraseDups) [cs]).isEmpty

/-- What a pattern asks of a path. -/
inductive PathTest where
  /-- The path has a character. -/
  | nonEmpty
  /-- The path lies in a folder, or is one. -/
  | inFolder
  /-- The path starts as the pieces say. -/
  | starts (pieces : List Piece)
  deriving DecidableEq, Repr

/-- Whether a path passes a test. -/
def PathTest.passes : PathTest → List Char → Bool
  | nonEmpty, cs => !cs.isEmpty
  | inFolder, cs => cs.contains '/'
  | starts pieces, cs => Piece.matchAll pieces cs

/-- A pattern that has an effect: it excludes the paths it selects, or takes them back in. -/
structure Rule where
  excludes : Bool
  test : PathTest
  deriving DecidableEq, Repr

/-- Why there is no rule for a pattern. -/
inductive RuleGap where
  /-- The pattern has no effect. -/
  | noEffect
  /-- The pattern makes no sense. -/
  | invalid
  deriving DecidableEq, Repr

namespace Rule

/-- The ranges that the inside of brackets lists. A dash between two characters makes a range. -/
def ranges : List Char → Text.Ranges
  | [] => []
  | low :: '-' :: high :: rest => (low.toNat, high.toNat) :: ranges rest
  | c :: rest => (c.toNat, c.toNat) :: ranges rest

/-- The inside of brackets and the text behind them. A closing bracket at the very start is part of
the inside. -/
def bracketed? (cs : List Char) : Option (List Char × List Char) :=
  let (first, rest) :=
    match cs with
    | ']' :: rest => ([']'], rest)
    | cs => ([], cs)
  let inside := rest.takeWhile (· != ']')
  match rest.drop inside.length with
  | _ :: behind => some (first ++ inside, behind)
  | [] => none

/-- The piece of an opening bracket, and the text behind the closing one. -/
def bracketPiece (cs : List Char) : Except RuleGap (Piece × List Char) :=
  let (negated, cs) :=
    match cs with
    | '!' :: rest => (true, rest)
    | '^' :: rest => (true, rest)
    | cs => (false, cs)
  match bracketed? cs with
  | none => .error .noEffect
  | some (inside, behind) => .ok (.oneOf negated (ranges inside), behind)

/-- The pieces of one part of a pattern, given a bound on their number. -/
def partPiecesFrom : Nat → List Char → Except RuleGap (List Piece)
  | 0, _ => .ok []
  | _ + 1, [] => .ok []
  | _ + 1, ['\\'] => .error .invalid
  | fuel + 1, '\\' :: c :: rest => (partPiecesFrom fuel rest).map (.exactly c :: ·)
  | fuel + 1, '*' :: rest => (partPiecesFrom fuel rest).map (.many :: ·)
  | fuel + 1, '?' :: rest => (partPiecesFrom fuel rest).map (.one :: ·)
  | fuel + 1, '[' :: rest => do
    let (piece, behind) ← bracketPiece rest
    return piece :: (← partPiecesFrom fuel behind)
  | fuel + 1, c :: rest => (partPiecesFrom fuel rest).map (.exactly c :: ·)

/-- The pieces of one part of a pattern. -/
def partPieces (part : List Char) : Except RuleGap (List Piece) :=
  if part = ['*'] then .ok [.name] else partPiecesFrom part.length part

/-- The part that stands for any number of folders. -/
def anyFolders : List Char := ['*', '*']

/-- The pieces of the parts of a pattern. The flags say whether no part comes before, and whether
the next part needs a slash before it. -/
def piecesOf (first slash : Bool) : List (List Char) → Except RuleGap (List Piece)
  | [] => .ok []
  | part :: rest =>
    if part = anyFolders then
      if first then do return .leadingFolders :: (← piecesOf false false rest)
      else if rest = [] then .ok [.exactly '/']
      else do return .innerFolders :: (← piecesOf false true rest)
    else do
      let lead := if slash then [Piece.exactly '/'] else []
      let pieces ← partPieces part
      let trail := if rest = [] then [Piece.boundary] else []
      return lead ++ pieces ++ trail ++ (← piecesOf false true rest)

/-- Parts with runs of the any-folders part shortened to one. -/
def collapse : List (List Char) → List (List Char)
  | a :: b :: rest =>
    if a = anyFolders ∧ b = anyFolders then collapse (b :: rest) else a :: collapse (b :: rest)
  | parts => parts

/-- The parts of a pattern as they apply from the start of a path: one that names no place may start
in any folder, and a slash at the end asks for something below. -/
def parts (cs : List Char) : Except RuleGap (List (List Char)) :=
  let placed :=
    match cs.splitOn '/' with
    | [] :: rest => rest
    | [part] => if part = anyFolders then [part] else [anyFolders, part]
    | [part, []] => if part = anyFolders then [part, []] else [anyFolders, part, []]
    | parts => parts
  match placed.reverse with
  | [] => .error .invalid
  | [] :: before => .ok (collapse (anyFolders :: before).reverse)
  | _ => .ok (collapse placed)

/-- The test of a pattern without its leading mark. -/
def testOf (cs : List Char) : Except RuleGap PathTest := do
  let inFolder := cs.getLast? == some '/' || cs.isEmpty
  let ps ← parts cs
  if ps = [anyFolders] then return if inFolder then .inFolder else .nonEmpty
  else if ps = [anyFolders, ['*']] then return .nonEmpty
  else if ps = [anyFolders, ['*'], anyFolders] then return .inFolder
  else
    let pieces ← piecesOf true false ps
    if pieces.all Piece.isOrdered then return .starts pieces else throw .invalid

/-- The rule of a pattern. Blanks at its end do not count unless the last one is escaped. -/
def ofPattern (pattern : String) : Except RuleGap Rule :=
  let escaped := pattern.toList.reverse.take 2 == [' ', '\\']
  match (if escaped then pattern else Text.trimEnd pattern).toList with
  | [] => .error .noEffect
  | '#' :: _ => .error .noEffect
  | ['/'] => .error .noEffect
  | '!' :: cs => (testOf cs).map (⟨false, ·⟩)
  | cs => (testOf cs).map (⟨true, ·⟩)

/-- The rules of some patterns, or the first pattern that makes no sense. -/
def ofPatterns : List String → Except String (List Rule)
  | [] => .ok []
  | pattern :: rest =>
    match ofPattern pattern with
    | .ok rule => (ofPatterns rest).map (rule :: ·)
    | .error .noEffect => ofPatterns rest
    | .error .invalid => .error pattern

/-- A path as patterns see it: without a mark of the folder it starts in. -/
def pathText : List Char → List Char
  | '/' :: cs => cs
  | '.' :: '/' :: cs => cs
  | cs => cs

/-- Whether some rules exclude a path. The last rule that selects it decides. -/
def excluded (rules : List Rule) (path : String) : Bool :=
  match rules.reverse.find? (·.test.passes (pathText path.toList)) with
  | some rule => rule.excludes
  | none => false

end Rule

/-- A reading of patterns: the paths that they exclude, or a pattern that makes no sense. -/
abbrev Matcher := List String → Except String (String → Bool)

/-- The reading of patterns as rules. -/
def Rule.matcher : Matcher := fun patterns => (Rule.ofPatterns patterns).map Rule.excluded

end Wxml
