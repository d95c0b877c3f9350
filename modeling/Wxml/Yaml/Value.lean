import Wxml.Text.Quoted
import Wxml.Value
import Wxml.Yaml.Node

/-!
# The value of a settings text

Each node gives a value of the kind that its tag names. In a mapping no key may come twice, a key
must not be a mapping, and the merge key brings in the fields of other mappings, which the mapping's
own fields override.
-/

namespace Wxml.Yaml

/-! ## Numbers and dates -/

/-- The digits of a number without the marks that group them. -/
def ungrouped (s : String) : List Char := s.toList.filter (· != '_')

/-- Whether a number is written with a minus sign. -/
def isNegative (cs : List Char) : Bool := cs.head? == some '-'

/-- The number that some digits spell in a base. -/
def digitsValue? (base : Nat) (cs : List Char) : Option Nat :=
  if cs.isEmpty then none
  else
    cs.foldlM (fun n c =>
      match hexDigit? c with
      | some d => if d < base then some (n * base + d) else none
      | none => none) 0

/-- A whole number. -/
def intValue (s : String) : Except Fault Value :=
  let cs := ungrouped s
  let body := unsigned cs
  let (base, digits) :=
    match body with
    | '0' :: 'b' :: rest => (2, rest)
    | '0' :: 'x' :: rest => (16, rest)
    | '0' :: 'o' :: rest => (8, rest)
    | _ => (10, body)
  match digitsValue? base digits with
  | some n => .ok (.number (if isNegative cs then -(n : Int) else n) 0)
  | none =>
    .error (.impossible ("invalid literal for int() with base " ++ toString base ++ ": " ++
      Text.quoted (String.ofList digits)))

/-- A number with a point or an exponent. -/
def floatValue (s : String) : Except Fault Value :=
  let cs := (ungrouped s).map Char.toLower
  let body := unsigned cs
  if body == ".inf".toList then .ok (.special (if isNegative cs then "-inf" else "inf"))
  else if body == ".nan".toList then .ok (.special "nan")
  else
    let mantissa := body.takeWhile (· != 'e')
    let whole := mantissa.takeWhile (· != '.')
    let fraction := (mantissa.drop whole.length).drop 1
    let exponent := (body.drop mantissa.length).drop 1
    let power? : Option Int :=
      if mantissa.length == body.length then some 0
      else
        (digitsValue? 10 (unsigned exponent)).map fun n =>
          if isNegative exponent then -(n : Int) else n
    match digitsValue? 10 (whole ++ fraction), power? with
    | some n, some power =>
      .ok (.number (if isNegative cs then -(n : Int) else n) (power - fraction.length))
    | _, _ =>
      .error (.impossible ("could not convert string to float: " ++
        Text.quoted (String.ofList body)))

/-- How many days a month has. -/
def daysIn (year month : Nat) : Nat :=
  if month == 2 then
    if year % 4 == 0 && (year % 100 != 0 || year % 400 == 0) then 29 else 28
  else if [4, 6, 9, 11].contains month then 30
  else 31

/-- A date, perhaps with a time of day. -/
def momentValue (s : String) : Except Fault Value :=
  let cs := s.toList
  if isDate cs || isDateTime cs then
    let numbers := ((digitRuns cs).filter fun run => run.all Char.isDigit).filterMap
      (digitsValue? 10)
    let inRange (n limit : Nat) (unit : String) : Except Fault Unit :=
      if n < limit then .ok ()
      else .error (.impossible (unit ++ " must be in 0.." ++ toString (limit - 1)))
    do
      match numbers with
      | year :: month :: day :: time =>
        if year == 0 then throw (.impossible "year 0 is out of range")
        if month == 0 || 12 < month then throw (.impossible "month must be in 1..12")
        if day == 0 || daysIn year month < day then
          throw (.impossible "day is out of range for month")
        match time with
        | hour :: minute :: second :: _ =>
          inRange hour 24 "hour"
          inRange minute 60 "minute"
          inRange second 60 "second"
        | _ => pure ()
        return .moment s
      | _ => throw .malformed
  else .error .malformed

/-- A truth value. -/
def boolValue (s : String) : Except Fault Value :=
  let word := String.ofList (s.toList.map Char.toLower)
  if ["true", "yes", "on", "y"].contains word then .ok (.bool true)
  else if ["false", "no", "off", "n"].contains word then .ok (.bool false)
  else .error .malformed

/-- The value of a scalar. -/
def scalarValue (tag : Tag) (s : String) : Except Fault Value :=
  match tag with
  | .null => .ok .null
  | .bool => boolValue s
  | .int => intValue s
  | .float => floatValue s
  | .text => .ok (.text s)
  | .moment => momentValue s
  | _ => .error .malformed

/-! ## Keys -/

/-- A number without trailing zeros, so that equal numbers look alike. -/
def trimmed (mantissa exponent : Int) : Nat → Int × Int
  | 0 => (mantissa, exponent)
  | fuel + 1 =>
    if mantissa == 0 then (0, 0)
    else if mantissa % 10 == 0 then trimmed (mantissa / 10) (exponent + 1) fuel
    else (mantissa, exponent)

mutual

/-- Whether two keys count as the same. Truth values count as the numbers one and zero. -/
def sameKey : Value → Value → Bool
  | .null, .null => true
  | .bool a, .bool b => a == b
  | .bool a, .number m e => trimmed m e m.natAbs == (if a then (1, 0) else (0, 0))
  | .number m e, .bool b => trimmed m e m.natAbs == (if b then (1, 0) else (0, 0))
  | .number m e, .number n f => trimmed m e m.natAbs == trimmed n f n.natAbs
  | .special a, .special b => a == b && a != "nan"
  | .text a, .text b => a == b
  | .moment a, .moment b => a == b
  | .list as, .list bs => sameKeys as bs
  | _, _ => false

/-- Whether two lists of keys count as the same. -/
def sameKeys : List Value → List Value → Bool
  | [], [] => true
  | a :: as, b :: bs => sameKey a b && sameKeys as bs
  | _, _ => false

end

/-- Whether a key occurs among some fields. -/
def hasKey (fields : List (Value × Value)) (key : Value) : Bool :=
  fields.any fun (k, _) => sameKey k key

/-- The fields with one of them set; a new field comes last. -/
def setField (fields : List (Value × Value)) (key value : Value) : List (Value × Value) :=
  if hasKey fields key then fields.map fun (k, v) => if sameKey k key then (k, value) else (k, v)
  else fields ++ [(key, value)]

/-- Fields that may override one another, in order. -/
def mergeFields (fields : List (Value × Value)) : List (Value × Value) :=
  fields.foldl (fun done (k, v) => setField done k v) []

/-- Whether a value can be a key. -/
def isKey : Value → Bool
  | .mapping _ => false
  | _ => true

/-! ## Nodes -/

/-- The fields of a mapping: those that it merges, if it merges any, and its own. -/
def splitMerge (fields : List (Node × Node)) : List Node × List (Node × Node) :=
  (fields.filterMap fun (k, v) => if k.tag == .merge then some v else none,
    fields.filter fun (k, _) => k.tag != .merge)

/-- The fields that a mapping stands for once what it merges has been brought in. The flag says
whether anything was. -/
def flattened : Nat → List (Node × Node) → Except Fault (List (Node × Node) × Bool)
  | 0, _ => .error .malformed
  | fuel + 1, fields => do
    let (merged, own) := splitMerge fields
    let own := own.map fun (k, v) =>
      match k with
      | .scalar .value s => (Node.scalar .text s, v)
      | k => (k, v)
    match merged with
    | [] => return (own, false)
    | [.mapping _ inner] =>
      let (inner, _) ← flattened fuel inner
      return (inner ++ own, !inner.isEmpty)
    | [.sequence _ items] =>
      let inners ← items.mapM fun
        | .mapping _ inner => (flattened fuel inner).map (·.1)
        | _ => .error .malformed
      let inner := inners.reverse.flatten
      return (inner ++ own, !inner.isEmpty)
    | _ => throw .malformed

mutual

/-- The value of a node. -/
def Node.value : Nat → Node → Except Fault Value
  | 0, _ => .error .malformed
  | fuel + 1, n =>
    match n with
    | .scalar tag s => scalarValue tag s
    | .sequence .sequence items => do return .list (← Node.values fuel items)
    | .mapping .mapping fields => do
      let (fields, merged) ← flattened fuel fields
      let fields ← Node.fieldValues fuel merged [] fields
      return .mapping (mergeFields fields)
    | _ => .error .malformed

/-- The values of some nodes. -/
def Node.values : Nat → List Node → Except Fault (List Value)
  | 0, _ => .error .malformed
  | _ + 1, [] => .ok []
  | fuel + 1, n :: ns => do
    let v ← Node.value fuel n
    return v :: (← Node.values fuel ns)

/-- The values of some fields. Unless they come from several mappings, no key may come twice. -/
def Node.fieldValues (fuel : Nat) (merged : Bool) (before : List (Value × Value))
    (fields : List (Node × Node)) : Except Fault (List (Value × Value)) :=
  match fuel, fields with
  | 0, _ => .error .malformed
  | _ + 1, [] => .ok []
  | fuel + 1, (k, v) :: rest => do
    let key ← Node.value fuel k
    if !isKey key then throw .malformed
    let value ← Node.value fuel v
    if !merged && hasKey before key then throw .malformed
    return (key, value) :: (← Node.fieldValues fuel merged ((key, value) :: before) rest)

end

/-- The value of a settings text; an empty text says nothing. -/
def load (text : String) : Except Fault Value := do
  let tokens ← Token.scan text
  match ← Node.ofTokens tokens with
  | none => return .null
  | some n => Node.value (8 * text.length + 8) n

end Wxml.Yaml
