import Wxml.CompileError
import Wxml.Directive

/-!
# Notices

What a run reports beside its result: the progress of each stage, and the irregularities that it
lets pass. Notices are kept in the order in which they arise; who shows them chooses a least level.
-/

namespace Wxml

/-- How much a notice matters. -/
inductive Level where
  | debug
  | info
  | warning
  deriving DecidableEq, Repr, Inhabited

/-- The name of a level in a log line. -/
def Level.label : Level → String
  | .debug => "DEBUG"
  | .info => "INFO"
  | .warning => "WARNING"

/-- Levels in ascending order. -/
def Level.rank : Level → Nat
  | .debug => 0
  | .info => 1
  | .warning => 2

/-- One thing worth reporting. -/
inductive Notice where
  /-- A text was read to its end. -/
  | tokenized (characters tokens : Nat)
  /-- The tokens ended inside an element. -/
  | unclosed (element : Token)
  /-- An element was closed under another name. -/
  | mismatched (element closing : Token)
  /-- Something follows the root element. -/
  | discarded (count : Nat) (first : Position)
  /-- A continuing branch has no open conditional. -/
  | strayContinuation (expression : String)
  /-- A closing branch has no open conditional. -/
  | strayClosing
  /-- A generation pass left branches behind. -/
  | chainLeft (branches : List Branch)
  /-- A document was compiled. -/
  | compiled (characters produced : Nat)
  /-- A source file of a build did not compile. -/
  | sourceFailed (path : String) (error : CompileError)
  /-- A source file of a build was compiled. -/
  | sourceCompiled (path : String)
  deriving Repr

namespace Notice

/-- How much a notice matters. -/
def level : Notice → Level
  | discarded _ _ => .warning
  | sourceFailed _ _ => .warning
  | sourceCompiled _ => .info
  | _ => .debug

/-- The notice in words. -/
def message : Notice → String
  | tokenized characters tokens =>
    "Tokenized " ++ toString characters ++ " characters into " ++ toString tokens ++ " tokens"
  | unclosed element =>
    "Element <" ++ element.value ++ "> at " ++ element.position.label ++ " has no closing tag"
  | mismatched element closing =>
    "Element <" ++ element.value ++ "> at " ++ element.position.label ++ " closed by </" ++
      closing.value ++ "> at " ++ closing.position.label
  | discarded count first =>
    "Only a single root element is supported; discarding " ++ toString count ++
      " trailing token(s) from " ++ first.label
  | strayContinuation expression =>
    "wx:elseif=" ++ Text.quoted expression ++ " without a preceding wx:if; left unwrapped"
  | strayClosing => "wx:else without a preceding wx:if; left unwrapped"
  | chainLeft branches =>
    "Generation finished with chain state [" ++
      ", ".intercalate (branches.map fun b => Text.quoted b.label) ++ "]"
  | compiled characters produced =>
    "Compiled " ++ toString characters ++ " characters into " ++ toString produced ++ " characters"
  | sourceFailed path error => "Failed to compile " ++ path ++ ": " ++ error.message
  | sourceCompiled path => "Compiled " ++ path

end Notice

end Wxml
