import Wxml.Code
import Wxml.Token.Scan

/-!
# Compiling a document

Text to tokens, tokens to a tree, the tree to code. The first error ends the compilation; what was
noticed before it is kept.
-/

namespace Wxml

/-- The tokens of a document, and what is noticed when they are complete. -/
def readTokens (text : String) : Except CompileError (List Token) × List Notice :=
  match Token.scan text with
  | .ok tokens => (.ok tokens, [.tokenized text.length tokens.length])
  | .error e => (.error e, [])

/-- The tree of a document, and what was noticed on the way. -/
def readTree (text : String) : Except CompileError Node × List Notice :=
  match readTokens text with
  | (.error e, notices) => (.error e, notices)
  | (.ok tokens, notices) =>
    let (result, more) := Node.ofTokens tokens
    (result, notices ++ more)

/-- The code of a document, and what was noticed on the way. -/
def compile (text : String) : Except CompileError String × List Notice :=
  match readTree text with
  | (.error e, notices) => (.error e, notices)
  | (.ok root, notices) =>
    let g := root.generateRoot {}
    (.ok g.code, notices ++ g.notices ++ [.compiled text.length g.code.length])

end Wxml
