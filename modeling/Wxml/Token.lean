import Wxml.Position
import Wxml.Text.Quoted

/-!
# Tokens

A document is a sequence of tags, texts and comments. Tags carry their attributes as tokens of
their own. The reader of a document fills exactly the fields that a kind needs; a token built by
hand may carry any of them.
-/

namespace Wxml

/-- The kinds of token. -/
inductive TokenKind where
  | openTag
  | closeTag
  | selfCloseTag
  | attribute
  | text
  | comment
  deriving DecidableEq, Repr, Inhabited

/-- The name of a kind in reports. -/
def TokenKind.label : TokenKind → String
  | .openTag => "OPEN_TAG"
  | .closeTag => "CLOSE_TAG"
  | .selfCloseTag => "SELF_CLOSE_TAG"
  | .attribute => "ATTRIBUTE"
  | .text => "TEXT"
  | .comment => "COMMENT"

/-- The kind that a report's name stands for. -/
def TokenKind.ofLabel? : String → Option TokenKind
  | "OPEN_TAG" => some .openTag
  | "CLOSE_TAG" => some .closeTag
  | "SELF_CLOSE_TAG" => some .selfCloseTag
  | "ATTRIBUTE" => some .attribute
  | "TEXT" => some .text
  | "COMMENT" => some .comment
  | _ => none

@[simp] theorem TokenKind.ofLabel?_label (kind : TokenKind) : ofLabel? kind.label = some kind := by
  cases kind <;> rfl

/-- A token: the name of a tag or attribute, or the content of a text or comment, with where it
starts. `rawValue` is an attribute's value as written, `attributes` the attributes of a tag. -/
structure Token where
  kind : TokenKind
  value : String
  position : Position
  rawValue : Option String := none
  attributes : Option (List Token) := none
  deriving Repr, Inhabited

/-- An attribute with its value. -/
def Token.ofAttribute (name value : String) (position : Position := .start) : Token :=
  { kind := .attribute, value := name, position, rawValue := some value }

/-- An opening or self-closing tag with its attributes. -/
def Token.ofTag (kind : TokenKind) (name : String) (attributes : List Token := [])
    (position : Position := .start) : Token :=
  { kind, value := name, position, attributes := some attributes }

/-- A token on one line, for people to read. -/
def Token.describe (t : Token) : String :=
  let value :=
    if t.kind = .attribute then Text.quoted t.value ++ "=" ++ Text.quotedOption t.rawValue
    else Text.quoted t.value
  "Token(" ++ t.kind.label ++ ", " ++ value ++ ", " ++ t.position.label ++ ")"

end Wxml
