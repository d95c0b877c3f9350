/-!
# Sets of characters as code point ranges

Properties of characters that a standard fixes by listing are held as closed ranges of code points,
in ascending order.
-/

namespace Wxml.Text

/-- A set of characters: closed ranges of code points. -/
abbrev Ranges := List (Nat × Nat)

/-- Whether some range holds the character. -/
def Ranges.covers (ranges : Ranges) (c : Char) : Bool :=
  ranges.any fun r => r.1 ≤ c.toNat && c.toNat ≤ r.2

/-- A character is covered exactly when it lies between the ends of a listed range. -/
theorem Ranges.covers_iff {ranges : Ranges} {c : Char} :
    ranges.covers c = true ↔ ∃ r ∈ ranges, r.1 ≤ c.toNat ∧ c.toNat ≤ r.2 := by
  simp [Ranges.covers]

end Wxml.Text
