import Wxml.Yaml.Source

/-!
# Tags

The tag of a node says what kind of value it is. A node without one has the tag that its form
suggests: a collection is what it looks like, a quoted text is a text, and a plain text is whatever
it is spelled like (`Tag.ofPlain`): nothing, a truth value, a number, a moment, or else a text.
-/

namespace Wxml.Yaml

/-- The kinds of value. -/
inductive Tag where
  | null
  | bool
  | int
  | float
  | text
  | moment
  | sequence
  | mapping
  /-- The key that merges other mappings. -/
  | merge
  /-- The key that stands for the mapping's own value. -/
  | value
  /-- A kind that settings do not know. -/
  | unknown
  deriving DecidableEq, Repr, Inhabited

/-- The tag that its full name stands for. -/
def Tag.ofName (name : String) : Tag :=
  match name with
  | "tag:yaml.org,2002:null" => .null
  | "tag:yaml.org,2002:bool" => .bool
  | "tag:yaml.org,2002:int" => .int
  | "tag:yaml.org,2002:float" => .float
  | "tag:yaml.org,2002:str" => .text
  | "tag:yaml.org,2002:timestamp" => .moment
  | "tag:yaml.org,2002:seq" => .sequence
  | "tag:yaml.org,2002:map" => .mapping
  | "tag:yaml.org,2002:merge" => .merge
  | "tag:yaml.org,2002:value" => .value
  | _ => .unknown

/-! ## Spellings -/

/-- A digit of a number, or the mark that groups digits. -/
def isGroupedDigit (c : Char) : Bool := c.isDigit || c == '_'

/-- The text behind an optional sign. -/
def unsigned : List Char → List Char
  | '+' :: cs => cs
  | '-' :: cs => cs
  | cs => cs

/-- Whether a text is an exponent: a letter, perhaps a sign, and digits. -/
def isExponent (signed : Bool) : List Char → Bool
  | e :: cs =>
    let digits := unsigned cs
    (e == 'e' || e == 'E') && (!signed || digits.length < cs.length) && !digits.isEmpty &&
      digits.all Char.isDigit
  | [] => false

/-- Whether a text is spelled like a number with a point or an exponent. -/
def isFloat (cs : List Char) : Bool :=
  let body := unsigned cs
  let whole := body.takeWhile isGroupedDigit
  let rest := body.drop whole.length
  let special := [".inf", ".Inf", ".INF"].contains (String.ofList body) ||
    [".nan", ".NaN", ".NAN"].contains (String.ofList cs)
  let led := (whole.head?.map Char.isDigit).getD false
  match rest with
  | '.' :: rest =>
    let fraction := rest.takeWhile isGroupedDigit
    let tail := rest.drop fraction.length
    special || (led && (tail.isEmpty || isExponent false tail)) ||
      (whole.isEmpty && !fraction.isEmpty && (tail.isEmpty || isExponent true tail))
  | rest => special || (led && isExponent false rest)

/-- Whether a text is spelled like a whole number, in base two, eight, ten or sixteen. A mark that
groups digits may follow the sign and not start the text. -/
def isInt (cs : List Char) : Bool :=
  let spelled := fun (digit : Char → Bool) (digits : List Char) =>
    !digits.isEmpty && digits.all fun c => digit c || c == '_'
  let isOctal := fun c => '0' ≤ c && c ≤ '7'
  let isHex := fun (c : Char) => c.isDigit || ('a' ≤ c && c ≤ 'f') || ('A' ≤ c && c ≤ 'F')
  match unsigned cs with
  | '0' :: 'b' :: digits => spelled (fun c => c == '0' || c == '1') digits
  | '0' :: 'o' :: digits => spelled isOctal digits
  | '0' :: 'x' :: digits => spelled isHex digits
  | digits => spelled Char.isDigit digits && cs.head? != some '_'

/-- The runs of digits of a text and the characters between them. -/
def digitRuns (cs : List Char) : List (List Char) :=
  cs.splitBy fun a b => a.isDigit == b.isDigit

/-- Whether some characters are digits, at least and at most so many. -/
def isDigits (least most : Nat) (cs : List Char) : Bool :=
  cs.all Char.isDigit && decide (least ≤ cs.length) && decide (cs.length ≤ most)

/-- Whether a text is spelled like a date. -/
def isDate (cs : List Char) : Bool :=
  match digitRuns cs with
  | [year, ['-'], month, ['-'], day] =>
    isDigits 4 4 year && isDigits 2 2 month && isDigits 2 2 day
  | _ => false

/-- Whether a text is spelled like a time zone, perhaps behind blanks. -/
def isZone (cs : List Char) : Bool :=
  match cs.dropWhile fun c => c == ' ' || c == '\t' with
  | [] => cs.isEmpty
  | ['Z'] => true
  | sign :: rest =>
    (sign == '+' || sign == '-') &&
      match digitRuns rest with
      | [hours] => isDigits 1 2 hours
      | [hours, [':'], minutes] => isDigits 1 2 hours && isDigits 2 2 minutes
      | _ => false

/-- Whether a text is spelled like a time of day: hours, minutes, seconds, and perhaps a fraction
and a time zone. -/
def isTime (cs : List Char) : Bool :=
  let hours := cs.takeWhile Char.isDigit
  match cs.drop hours.length with
  | ':' :: m :: n :: ':' :: s :: t :: rest =>
    let zone :=
      match rest with
      | '.' :: rest => rest.dropWhile Char.isDigit
      | rest => rest
    isDigits 1 2 hours && isDigits 2 2 [m, n] && isDigits 2 2 [s, t] && isZone zone
  | _ => false

/-- Whether a text is spelled like a date with a time of day. -/
def isDateTime (cs : List Char) : Bool :=
  let day := cs.takeWhile fun c => c.isDigit || c == '-'
  let rest := cs.drop day.length
  let time :=
    match rest with
    | 'T' :: rest => some rest
    | 't' :: rest => some rest
    | ' ' :: rest => some (rest.dropWhile fun c => c == ' ' || c == '\t')
    | '\t' :: rest => some (rest.dropWhile fun c => c == ' ' || c == '\t')
    | _ => none
  match digitRuns day, time with
  | [year, ['-'], month, ['-'], date], some time =>
    isDigits 4 4 year && isDigits 1 2 month && isDigits 1 2 date && isTime time
  | _, _ => false

/-- The tag that a plain text is spelled like. -/
def Tag.ofPlain (s : String) : Tag :=
  let cs := s.toList
  if ["true", "True", "TRUE", "false", "False", "FALSE"].contains s then .bool
  else if isFloat cs then .float
  else if isInt cs then .int
  else if s == "<<" then .merge
  else if ["", "~", "null", "Null", "NULL"].contains s then .null
  else if isDate cs || isDateTime cs then .moment
  else if s == "=" then .value
  else .text

end Wxml.Yaml
