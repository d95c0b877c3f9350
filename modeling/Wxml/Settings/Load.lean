import Wxml.Failure
import Wxml.Yaml.Value

/-!
# Loading a settings file

A settings file that does not exist leaves every setting at its default. Paths are taken from the
folder that holds the file, whether the file exists or not.
-/

namespace Wxml.Settings

/-- The text of a settings file. The file is decoded piece by piece, so a character that its end
cuts off is reported by itself. -/
def decodeText (octets : List UInt8) : Except Text.Utf8Error String :=
  match Text.decode octets with
  | .ok s => .ok s
  | .error e => .error (if e.fault = .unexpectedEnd then { e with position := 0 } else e)

/-- The mapping that a settings text gives; a text that says nothing gives an empty one. -/
def mappingOf (text path : String) : Except Failure (List (Value × Value)) :=
  match Yaml.load text with
  | .error .malformed => .error (.unparsable path)
  | .error (.impossible message) => .error (.impossible message)
  | .ok (.mapping fields) => .ok fields
  | .ok value => if value.isEmpty then .ok [] else .error (.notMapping path)

/-- The settings at an absolute path. -/
def load (tree : Entry) (path : Path) : Except Failure Settings := do
  let raw ←
    if (tree.entry? [] path).isSome then
      match tree.read [] path with
      | .error e => throw (.file e)
      | .ok octets =>
        match decodeText octets with
        | .error e => throw (.decoding e)
        | .ok text => mappingOf text path.text
    else pure []
  (ofMapping tree raw path.parent).mapError .settings

end Wxml.Settings
