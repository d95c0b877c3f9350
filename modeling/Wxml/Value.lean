/-!
# Values of a settings file

What a settings file can say: nothing, yes or no, a number, a text, a moment in time, a list, or a
mapping whose keys are values too.
-/

namespace Wxml

/-- A value of a settings file. -/
inductive Value where
  | null
  | bool (b : Bool)
  /-- The number `mantissa * 10 ^ exponent`. -/
  | number (mantissa exponent : Int)
  /-- A number that no decimal stands for: an infinity, or not a number at all. -/
  | special (name : String)
  | text (s : String)
  /-- A date, perhaps with a time of day. -/
  | moment (s : String)
  | list (items : List Value)
  | mapping (fields : List (Value × Value))
  deriving Repr, Inhabited

namespace Value

/-- Whether a value says nothing: no value, no, zero, or something empty. -/
def isEmpty : Value → Bool
  | null => true
  | bool b => !b
  | number mantissa _ => mantissa == 0
  | text s => s == ""
  | list items => items.isEmpty
  | mapping fields => fields.isEmpty
  | _ => false

/-- The text of a text value. -/
def text? : Value → Option String
  | text s => some s
  | _ => none

/-- The texts of a list of texts. -/
def texts? : Value → Option (List String)
  | list items => items.mapM text?
  | _ => none

end Value

end Wxml
