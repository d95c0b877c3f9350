import Wxml.Interpolation
import Wxml.Token

/-!
# Attributes and directives

Every attribute plays one role, which its name decides. Keys, event bindings and plain attributes
are written inline. Conditional branches and loops are directives: they are taken out of the
element and wait in its queue until the element's own code is known.
-/

namespace Wxml

/-- The three branches of a conditional. -/
inductive Branch where
  /-- `wx:if`, which opens a conditional. -/
  | opens
  /-- `wx:elseif` or `wx:elif`, which continues an open one. -/
  | continues
  /-- `wx:else`, which closes an open one. -/
  | closes
  deriving DecidableEq, Repr, Inhabited

/-- The name of a branch in reports. -/
def Branch.label : Branch → String
  | .opens => "if"
  | .continues => "elseif"
  | .closes => "else"

/-- What an attribute does. -/
inductive Role where
  | key
  | branch (b : Branch)
  | loop
  | event
  | plain
  deriving DecidableEq, Repr, Inhabited

namespace Role

/-- The name of a role in messages. -/
def label : Role → String
  | key => "KEY"
  | branch .opens => "CONDITIONAL_IF"
  | branch .continues => "CONDITIONAL_ELSEIF"
  | branch .closes => "CONDITIONAL_ELSE"
  | loop => "LOOP_FOR"
  | event => "EVENT_BINDING"
  | plain => "PLAIN"

/-- The word for a role in reports. -/
def word : Role → String
  | key => "key"
  | branch b => b.label
  | loop => "for"
  | event => "event"
  | plain => "plain"

/-- Whether the role is a branch of a conditional. -/
def isConditional : Role → Bool
  | branch _ => true
  | _ => false

/-- Whether attributes of this role wait in the queue instead of being written inline. -/
def isQueued : Role → Bool
  | branch _ => true
  | loop => true
  | _ => false

/-- The role of an attribute, by its name. Names are compared exactly. -/
def ofName (name : String) : Role :=
  if name = "wx:key" then key
  else if name = "wx:if" then branch .opens
  else if name = "wx:elseif" then branch .continues
  else if name = "wx:elif" then branch .continues
  else if name = "wx:else" then branch .closes
  else if name = "wx:for" then loop
  else if "bind".toList.isPrefixOf name.toList then event
  else plain

end Role

/-- The events that have another name in the output. -/
def eventName (event : String) : String :=
  if event = "tap" then "click" else if event = "confirm" then "keydown" else event

/-- The output name of an event binding: the four characters that mark it give way to `on`. -/
def eventProp (name : String) : String := "on" ++ eventName (String.ofList (name.toList.drop 4))

/-- The name under which an attribute of a role is written. -/
def Role.outputName (role : Role) (name : String) : String :=
  match role with
  | key => "key"
  | event => eventProp name
  | _ => name

/-- A directive: what it does and the expression it does it with. -/
inductive Directive where
  | branch (b : Branch) (expression : String)
  | loop (expression : String)
  deriving DecidableEq, Repr, Inhabited

/-- The role of the attribute that a directive comes from. -/
def Directive.role : Directive → Role
  | branch b _ => .branch b
  | loop _ => .loop

/-- The expression of a directive. -/
def Directive.expression : Directive → String
  | branch _ e => e
  | loop e => e

/-- The directive that an attribute of a role stands for, unless it is written inline. -/
def Role.directive? (role : Role) (expression : String) : Option Directive :=
  match role with
  | branch b => some (.branch b expression)
  | loop => some (.loop expression)
  | _ => none

/-- The misuse of roles and branches by a caller. -/
inductive DirectiveError where
  /-- Only conditionals and loops wait in a queue. -/
  | notQueued (role : Role)
  /-- Only conditionals are applied to a chain. -/
  | notConditional (role : Role)
  /-- There are three branches. -/
  | unknownBranch (name : String)
  deriving DecidableEq, Repr

/-- The misuse in words. -/
def DirectiveError.message : DirectiveError → String
  | notQueued role => role.label ++ " is not a queued directive"
  | notConditional role => "Not a conditional directive: " ++ role.label
  | unknownBranch name => Text.quoted name ++ " is not a valid ChainTag"

/-- The branch that a report's name stands for. -/
def Branch.ofLabel (name : String) : Except DirectiveError Branch :=
  if name = "if" then .ok .opens
  else if name = "elseif" then .ok .continues
  else if name = "else" then .ok .closes
  else .error (.unknownBranch name)

/-- The directives of one element. Loops go to the front, conditionals to the back. -/
structure Queue where
  items : List Directive := []
  deriving DecidableEq, Repr, Inhabited

namespace Queue

/-- Adds a directive. -/
def push (q : Queue) : Directive → Queue
  | .loop e => ⟨.loop e :: q.items⟩
  | .branch b e => ⟨q.items ++ [.branch b e]⟩

/-- Adds the directive of a role, if the role has one. -/
def add (q : Queue) (role : Role) (expression : String) : Except DirectiveError Queue :=
  match role.directive? expression with
  | some d => .ok (q.push d)
  | none => .error (.notQueued role)

/-- The conditionals, in order. -/
def conditionals (q : Queue) : List (Branch × String) :=
  q.items.filterMap fun
    | .branch b e => some (b, e)
    | .loop _ => none

/-- The expressions of the loops, in order. -/
def loops (q : Queue) : List String :=
  q.items.filterMap fun
    | .branch _ _ => none
    | .loop e => some e

end Queue

/-- The expression of an attribute; one without a value has an empty expression. -/
def Token.expression (t : Token) : String := stripExpression (t.rawValue.getD "")

/-- The directive of an attribute, unless it is written inline. -/
def Token.directive? (t : Token) : Option Directive := (Role.ofName t.value).directive? t.expression

/-- An attribute as it is written inline. -/
def Token.inlineText (t : Token) : String :=
  " " ++ (Role.ofName t.value).outputName t.value ++ "=\"" ++ t.expression ++ "\""

/-- The inline text of some attributes, and the queue with their directives added. -/
def renderAttributes : List Token → Queue → String × Queue
  | [], q => ("", q)
  | t :: ts, q =>
    match t.directive? with
    | some d => renderAttributes ts (q.push d)
    | none => (t.inlineText ++ (renderAttributes ts q).1, (renderAttributes ts q).2)

end Wxml
