import Wxml.Text.Lists

/-!
# Paths

A path as someone wrote it, cleaned of what changes nothing: empty parts, parts that are a single
dot, and a slash at the end. Parts that are two dots stay, since what they mean depends on the
links of a file tree. A place in a file tree is a `Location`: the names from the root down.
-/

namespace Wxml

/-- The names from the root of a file tree down to a place. -/
abbrev Location := List String

/-- A location as an absolute path. -/
def Location.text (l : Location) : String := "/" ++ "/".intercalate l

/-- A location below another one, as a relative path. -/
def Location.relativeText (l : Location) : String := "/".intercalate l

/-- The location at the end of some parts if none of them is a link: each leads one step down, or up
if it is two dots. -/
def Location.along (l : Location) (parts : List String) : Location :=
  parts.foldl (fun place part => if part = ".." then place.dropLast else place ++ [part]) l

/-- A path as written: what it starts with, and its parts. -/
structure Path where
  /-- Empty for a relative path, else one slash or two. -/
  root : String
  parts : List String
  deriving DecidableEq, Repr, Inhabited

namespace Path

/-- Whether a part of a path changes where the path leads. -/
def isPart (p : String) : Bool := p != "" && p != "."

/-- The start of a path. Exactly two slashes are kept apart from one. -/
def rootOf (s : String) : String :=
  match (s.toList.takeWhile (· == '/')).length with
  | 0 => ""
  | 2 => "//"
  | _ => "/"

/-- Reads a path. -/
def ofString (s : String) : Path := ⟨rootOf s, (Text.split '/' s).filter isPart⟩

/-- The path to a location. -/
def ofLocation (l : Location) : Path := ⟨"/", l⟩

/-- Whether the path starts at the root. -/
def isAbsolute (p : Path) : Bool := p.root != ""

/-- The text of a path; the empty path is a dot. -/
def text (p : Path) : String :=
  if p.parts = [] ∧ p.root = "" then "." else p.root ++ "/".intercalate p.parts

/-- A path taken from a place: an absolute one leads to the same place from everywhere. -/
def join (base p : Path) : Path := if p.isAbsolute then p else ⟨base.root, base.parts ++ p.parts⟩

/-- The path without its last part. -/
def parent (p : Path) : Path := ⟨p.root, p.parts.dropLast⟩

/-- Whether some part holds the character that no file name can hold. -/
def hasNul (p : Path) : Bool := p.parts.any (·.toList.contains '\x00')

end Path

/-- The place of the last dot of a file name, if it starts a suffix: neither the first nor the last
character of the name. -/
def suffixStart? (name : List Char) : Option Nat :=
  let tail := (name.reverse.takeWhile (· != '.')).length
  let dot := name.length - tail - 1
  if tail < name.length ∧ 0 < tail ∧ 0 < dot then some dot else none

/-- The suffix of a file name with its dot, or nothing. -/
def suffixOf (name : String) : String :=
  match suffixStart? name.toList with
  | some dot => String.ofList (name.toList.drop dot)
  | none => ""

/-- Whether a text can be the suffix of a file name. -/
def isSuffix (s : String) : Bool :=
  s.toList.head? == some '.' && s != "." && !s.toList.contains '/'

/-- The file name with another suffix. -/
def withSuffix (name suffix : String) : String :=
  match suffixStart? name.toList with
  | some dot => String.ofList (name.toList.take dot) ++ suffix
  | none => name ++ suffix

end Wxml
