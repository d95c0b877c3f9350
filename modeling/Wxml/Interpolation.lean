/-!
# Interpolation delimiters

Markup writes an expression between double braces. Pairs of braces are found from the left and do
not overlap, so in a run of three the first two form the pair.

Attribute values lose the delimiters (`stripExpression`). Texts keep single braces, lose their line
breaks, and have runs of spaces shortened to one (`normalizeText`).
-/

namespace Wxml

/-- Puts `image` in the place of every pair of `c`. -/
def replacePairs (c : Char) (image : List Char) : List Char → List Char
  | [] => []
  | [x] => [x]
  | x :: y :: rest =>
    if x = c ∧ y = c then image ++ replacePairs c image rest
    else x :: replacePairs c image (y :: rest)

/-- Shortens every run of spaces to one space. -/
def squeezeSpaces : List Char → List Char
  | [] => []
  | [x] => [x]
  | x :: y :: rest =>
    if x = ' ' ∧ y = ' ' then squeezeSpaces (y :: rest) else x :: squeezeSpaces (y :: rest)

/-- The text without interpolation delimiters. -/
def stripExpression (s : String) : String :=
  String.ofList (replacePairs '}' [] (replacePairs '{' [] s.toList))

/-- Whether a character ends a line. -/
def isLineBreak (c : Char) : Bool := c == '\r' || c == '\n'

/-- The text of an element as the output shows it. -/
def normalizeText (s : String) : String :=
  let single := replacePairs '}' ['}'] (replacePairs '{' ['{'] s.toList)
  String.ofList (squeezeSpaces (single.filter (!isLineBreak ·)))

end Wxml
