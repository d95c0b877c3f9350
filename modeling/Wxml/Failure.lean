import Wxml.CompileError
import Wxml.FileTree
import Wxml.Settings
import Wxml.Text.Utf8

/-!
# Why a command fails

Everything that can end a command, with its cause. Most failures are for the user to mend and have a
message. The others mean that a file is not where it should be, or not what it should be.
-/

namespace Wxml

/-- What ended a command. -/
inductive Failure where
  /-- A document does not compile. -/
  | compile (error : CompileError)
  /-- A source file of a build does not compile. -/
  | source (path : String) (error : CompileError)
  /-- The settings make no sense. -/
  | settings (error : SettingsError)
  /-- The settings file cannot be read as settings. -/
  | unparsable (path : String)
  /-- The settings file holds something other than a mapping. -/
  | notMapping (path : String)
  /-- A number or a date in the settings file does not exist. -/
  | impossible (message : String)
  /-- There is no folder to search for sources. -/
  | noSourceFolder (path : String)
  /-- There is no file to compile. -/
  | noSourceFile (path : String)
  /-- Output files cannot have this suffix. -/
  | suffix (suffix : String)
  /-- An exclude pattern makes no sense. -/
  | pattern (pattern : String)
  /-- A file is not a text. -/
  | decoding (error : Text.Utf8Error)
  /-- A file cannot be read or written. -/
  | file (error : FileError)
  deriving Repr

namespace Failure

/-- The failure in words, if it is for the user to mend. -/
def message? : Failure → Option String
  | compile e => some e.message
  | source path e => some (path ++ ": " ++ e.message)
  | settings .unnamedKey => none
  | settings e => some e.message
  | unparsable path => some ("Failed to parse " ++ path)
  | notMapping path => some ("YAML must be a mapping: " ++ path)
  | impossible message => some message
  | noSourceFolder path => some ("Source directory not found: " ++ path)
  | noSourceFile path => some ("Source file not found: " ++ path)
  | suffix s => some ("Invalid suffix " ++ Text.quoted s)
  | pattern p => some ("Invalid git pattern: " ++ Text.quoted p)
  | decoding e => some e.message
  | file .badName => some "embedded null byte"
  | file _ => none

end Failure

end Wxml
