import Wxml.Text.Ranges

/-!
# Blank characters

The characters that separate markup: the line and tab controls, the information separators, and
every character of the space separators. `isBlank` is wider than `Char.isWhitespace`
(`isBlank_of_isWhitespace`).
-/

namespace Wxml.Text

/-- The blank characters. -/
def blanks : Ranges :=
  [(0x9, 0xd), (0x1c, 0x20), (0x85, 0x85), (0xa0, 0xa0), (0x1680, 0x1680), (0x2000, 0x200a),
    (0x2028, 0x2029), (0x202f, 0x202f), (0x205f, 0x205f), (0x3000, 0x3000)]

/-- Whether a character only separates. -/
def isBlank (c : Char) : Bool := blanks.covers c

/-- The text without the blanks at its end. -/
def trimEnd (s : String) : String :=
  String.ofList (s.toList.reverse.dropWhile isBlank).reverse

/-- What separates words for the library separates markup here. The converse fails: the library's
test knows no separator outside ASCII. -/
theorem isBlank_of_isWhitespace {c : Char} (h : c.isWhitespace = true) : isBlank c = true := by
  simp only [Char.isWhitespace, Bool.or_eq_true, decide_eq_true_eq] at h
  rcases h with ((rfl | rfl) | rfl) | rfl <;> decide

end Wxml.Text
