import Wxml.Position

/-!
# Why a document does not compile

A compilation stops at its first error. An error is a cause and, where one is known, a position;
its message is the cause's text followed by the position.
-/

namespace Wxml

/-- What is wrong with a document. -/
inductive Cause where
  /-- The text or the token list ended while something was still required. -/
  | endOfInput
  /-- Something required is missing. -/
  | expected (what : String)
  /-- Something present cannot stand where it is. -/
  | unexpected (what : String)
  /-- Any other failure, in its own words. -/
  | other (text : String)
  deriving DecidableEq, Repr, Inhabited

/-- The cause in words. -/
def Cause.text : Cause → String
  | .endOfInput => "Unexpected end of input"
  | .expected what => "Expected " ++ what
  | .unexpected what => "Unexpected " ++ what
  | .other text => text

/-- A failure to compile. -/
structure CompileError where
  cause : Cause
  position : Option Position
  deriving DecidableEq, Repr, Inhabited

/-- The full message: the cause and where it was met. -/
def CompileError.message (e : CompileError) : String :=
  match e.position with
  | some p => e.cause.text ++ " at " ++ p.label
  | none => e.cause.text

end Wxml
