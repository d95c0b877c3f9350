import Wxml.Text.Lists
import Wxml.Text.Upper

/-!
# Component names

The name under which an element appears in the output. Only the first character of a word changes
case; the rest of the word is kept as written.
-/

namespace Wxml

/-- The text with its first character in upper case. -/
def firstUpper (s : String) : String :=
  match s.toList with
  | [] => ""
  | c :: cs => String.ofList (Text.upper c ++ cs)

/-- The words between dashes, each with its first character in upper case, joined without the
dashes. -/
def camelCase (s : String) : String := String.join ((Text.split '-' s).map firstUpper)

end Wxml
