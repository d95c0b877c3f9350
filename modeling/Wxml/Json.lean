import Wxml.Node

/-!
# Reports as JSON

A JSON value and its text. Members stand in the order given, separated by a comma and a space; a
colon and a space separate a name from its value. Strings keep every character as itself except
the quote, the backslash and the control characters below the space.

Tokens and trees are shown as objects. A token has its kind, its value and its position; an
attribute also has its raw value, a tag its attributes, an element the nodes inside it.
-/

namespace Wxml

/-- A JSON value with whole numbers. -/
inductive Json where
  | null
  | bool (b : Bool)
  | int (n : Int)
  | str (s : String)
  | arr (items : List Json)
  | obj (fields : List (String × Json))
  deriving Repr, Inhabited

namespace Json

/-- One character inside a JSON string. -/
def escape (c : Char) : List Char :=
  if c = '"' then ['\\', '"']
  else if c = '\\' then ['\\', '\\']
  else if c = '\n' then ['\\', 'n']
  else if c = '\r' then ['\\', 'r']
  else if c = '\t' then ['\\', 't']
  else if c = '\x08' then ['\\', 'b']
  else if c = '\x0c' then ['\\', 'f']
  else if c.toNat < 0x20 then '\\' :: 'u' :: Text.hex 4 c.toNat
  else [c]

/-- A JSON string. -/
def writeString (s : String) : List Char := '"' :: s.toList.flatMap escape ++ ['"']

/-- A whole number in decimal. -/
def writeInt : Int → List Char
  | .ofNat n => Nat.toDigits 10 n
  | .negSucc n => '-' :: Nat.toDigits 10 (n + 1)

mutual

/-- The text of a value. -/
def write : Json → List Char
  | null => "null".toList
  | bool true => "true".toList
  | bool false => "false".toList
  | int n => writeInt n
  | str s => writeString s
  | arr [] => "[]".toList
  | arr (v :: vs) => '[' :: write v ++ writeItems vs ++ [']']
  | obj [] => "\x7b\x7d".toList
  | obj ((name, v) :: fs) =>
    '{' :: writeString name ++ ": ".toList ++ write v ++ writeFields fs ++ ['}']

/-- The items of an array behind the first. -/
def writeItems : List Json → List Char
  | [] => []
  | v :: vs => ", ".toList ++ write v ++ writeItems vs

/-- The fields of an object behind the first. -/
def writeFields : List (String × Json) → List Char
  | [] => []
  | (name, v) :: fs => ", ".toList ++ writeString name ++ ": ".toList ++ write v ++ writeFields fs

end

/-- The text of a value, on one line. -/
def render (v : Json) : String := String.ofList v.write

end Json

mutual

/-- The fields of a token, in order. -/
def Token.jsonFields : Token → List (String × Json)
  | ⟨kind, value, position, rawValue, attributes⟩ =>
    [("kind", .str kind.label), ("value", .str value), ("line", .int position.line),
      ("column", .int position.column), ("offset", .int position.offset)] ++
    (if kind = .attribute then [("raw_value", (rawValue.map Json.str).getD .null)] else []) ++
    Token.attributeField attributes

/-- The field that lists the attributes of a tag. -/
def Token.attributeField : Option (List Token) → List (String × Json)
  | none => []
  | some ts => [("attributes", .arr (Token.jsonList ts))]

/-- Some tokens as objects. -/
def Token.jsonList : List Token → List Json
  | [] => []
  | t :: ts => .obj t.jsonFields :: Token.jsonList ts

end

/-- A token as an object. -/
def Token.json (t : Token) : Json := .obj t.jsonFields

mutual

/-- A tree as an object. -/
def Node.json : Node → Json
  | .leaf t => .obj t.jsonFields
  | .element t children => .obj (t.jsonFields ++ [("children", .arr (Node.jsonList children))])

/-- Some trees as objects. -/
def Node.jsonList : List Node → List Json
  | [] => []
  | n :: ns => n.json :: Node.jsonList ns

end

end Wxml
