import Wxml.FileTree
import Wxml.Value

/-!
# Settings of a build

Where sources are read and outputs written, and what counts as a source. A settings file names some
of the six settings; the others keep their defaults. Paths are taken from the folder of the file
and stored as locations.

The checks run in a fixed order, and the first that fails is reported.
-/

namespace Wxml

/-- The settings of a build. -/
structure Settings where
  /-- The folder that is searched for sources. -/
  src : Location
  /-- The folder that takes the outputs. -/
  out : Location
  /-- The suffixes of source files, each with its dot. -/
  extensions : List String
  /-- The suffix of output files. -/
  suffix : String
  /-- Patterns of paths that are not searched. -/
  exclude : List String
  /-- Whether the first document that does not compile ends the build. -/
  failFast : Bool
  deriving DecidableEq, Repr

/-- What is wrong with settings. -/
inductive SettingsError where
  /-- Names that are no settings, sorted. -/
  | unknownKeys (keys : List String)
  /-- A key that is not even a text. -/
  | unnamedKey
  /-- A setting that must be a text with at least one character. -/
  | notText (key : String)
  /-- A setting that must be a list of texts. -/
  | notTexts (key : String)
  /-- A setting that must be true or false. -/
  | notBool (key : String)
  /-- A path with a character that no path can hold. -/
  | badPath
  deriving DecidableEq, Repr

/-- The error in words. -/
def SettingsError.message : SettingsError → String
  | unknownKeys keys => "Unknown config key(s): " ++ ", ".intercalate keys
  | unnamedKey => "A config key is not a string"
  | notText key => "'" ++ key ++ "' must be a non-empty string"
  | notTexts key => "'" ++ key ++ "' must be a list of strings"
  | notBool key => "'" ++ key ++ "' must be a boolean"
  | badPath => "embedded null byte"

namespace Settings

/-- The settings that a file leaves out. -/
def defaults : List (String × Value) :=
  [("src", .text "."), ("out", .text "dist"), ("extensions", .list [.text ".wxml"]),
    ("suffix", .text ".jsx"), ("exclude", .list [.text "node_modules/", .text ".git/"]),
    ("fail_fast", .bool true)]

/-- The value given under a name, the last one if there are several. -/
def given? (raw : List (Value × Value)) (key : String) : Option Value :=
  (raw.reverse.find? fun (k, _) => k.text? == some key).map (·.2)

/-- The value of a setting: the given one, or else the default. -/
def valueOf (raw : List (Value × Value)) (key : String) : Value :=
  ((given? raw key).or (defaults.lookup key)).getD .null

/-- Whether a key is the name of a setting. -/
def isKnown (key : Value) : Bool :=
  match key with
  | .text s => (defaults.lookup s).isSome
  | _ => false

/-- Refuses keys that are not settings. -/
def checkKeys (raw : List (Value × Value)) : Except SettingsError Unit :=
  let unknown := (raw.map (·.1)).filter (!isKnown ·)
  if unknown = [] then .ok ()
  else
    match unknown.mapM Value.text? with
    | some keys => .error (.unknownKeys (Text.sorted keys))
    | none => .error .unnamedKey

/-- A setting that must be a text with at least one character. -/
def textOf (raw : List (Value × Value)) (key : String) : Except SettingsError String :=
  match valueOf raw key with
  | .text s => if s = "" then .error (.notText key) else .ok s
  | _ => .error (.notText key)

/-- A setting that must be a list of texts. -/
def textsOf (raw : List (Value × Value)) (key : String) : Except SettingsError (List String) :=
  match (valueOf raw key).texts? with
  | some texts => .ok texts
  | none => .error (.notTexts key)

/-- A setting that must be true or false. -/
def boolOf (raw : List (Value × Value)) (key : String) : Except SettingsError Bool :=
  match valueOf raw key with
  | .bool b => .ok b
  | _ => .error (.notBool key)

/-- The suffix that an extension stands for; the dot may be left out. -/
def dotted (extension : String) : String :=
  if extension.toList.head? = some '.' then extension else "." ++ extension

/-- The location of a path taken from a folder. -/
def locate (tree : Entry) (base : Location) (p : Path) : Except SettingsError Location :=
  if p.hasNul then .error .badPath else .ok (tree.resolve base p)

/-- The settings that a mapping gives, its paths taken from a base folder. -/
def ofMapping (tree : Entry) (raw : List (Value × Value)) (base : Path) :
    Except SettingsError Settings := do
  checkKeys raw
  let base ← locate tree [] base
  let src ← textOf raw "src"
  let out ← textOf raw "out"
  let suffix ← textOf raw "suffix"
  let extensions ← textsOf raw "extensions"
  let exclude ← textsOf raw "exclude"
  let failFast ← boolOf raw "fail_fast"
  let src ← locate tree base (.ofString src)
  let out ← locate tree base (.ofString out)
  return ⟨src, out, extensions.map dotted, suffix, exclude, failFast⟩

end Settings

end Wxml
