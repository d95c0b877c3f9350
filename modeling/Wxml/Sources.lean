import Wxml.FileTree
import Wxml.Text.Lists
import Wxml.Text.Lower

/-!
# Finding the sources of a build

The source folder is searched from the top: first the files of a folder by name, then its folders
by name. Folders that are excluded, that are links, or that are the output folder are not entered.

A walk may change the tree while it goes (`walk`): each folder is listed when the walk reaches it.
So a walk need not end. It is given a number of folders that it may be inside of, and coming deeper
is an error that it ends with.

**What is left out.** The two folders are places (`Location`): a link at the place of the source
folder is not followed, and one on the way to it leads nowhere. Settings never give such a place.
-/

namespace Wxml

/-- What counts as a source. -/
structure SourceRules where
  /-- The place of the folder that is searched. -/
  src : Location
  /-- The place of the folder that is never entered. -/
  out : Location
  /-- The suffixes of sources, in lower case. -/
  suffixes : List String
  /-- Whether a path below the source folder is left out; folders end in a slash. -/
  excluded : String → Bool

namespace SourceRules

/-- Whether a file below the source folder is a source. -/
def takesFile (r : SourceRules) (rel : Location) : Bool :=
  r.suffixes.contains (Text.lower (suffixOf (rel.getLastD ""))) && !r.excluded rel.relativeText

/-- Whether a folder below the source folder is searched, as far as its place and its path tell. -/
def takesFolder (r : SourceRules) (tree : Entry) (rel : Location) : Bool :=
  tree.resolve [] (.ofLocation (r.src ++ rel)) != r.out && !r.excluded (rel.relativeText ++ "/")

/-- The names in a folder below the source folder. -/
def names (r : SourceRules) (tree : Entry) (rel : Location) : List String :=
  match tree.get? (r.src ++ rel) with
  | some (.folder es) => es.map (·.1)
  | _ => []

/-- Whether a path below the source folder leads to a folder. -/
def leadsToFolder (r : SourceRules) (tree : Entry) (rel : Location) : Bool :=
  tree.hasFolder [] (.ofLocation (r.src ++ rel))

/-- The sources in a folder, by name. -/
def filesIn (r : SourceRules) (tree : Entry) (rel : Location) : List Location :=
  let names := Text.sorted ((r.names tree rel).filter fun n => !r.leadsToFolder tree (rel ++ [n]))
  (names.map fun n => rel ++ [n]).filter r.takesFile

/-- The folders in a folder that are searched, by name. -/
def foldersIn (r : SourceRules) (tree : Entry) (rel : Location) : List Location :=
  let names := Text.sorted ((r.names tree rel).filter fun n => r.leadsToFolder tree (rel ++ [n]))
  (names.map fun n => rel ++ [n]).filter (r.takesFolder tree)

/-- Whether a path below the source folder is a link. -/
def isLink (r : SourceRules) (tree : Entry) (rel : Location) : Bool :=
  match tree.get? (r.src ++ rel) with
  | some e => e.isLink
  | none => false

variable {ε σ : Type}

/-- Goes into a folder, unless it is a link by now. -/
def enter (r : SourceRules) (view : σ → Entry) (into : Location → EStateM ε σ Unit)
    (folder : Location) : EStateM ε σ Unit := do
  if r.isLink (view (← get)) folder then pure () else into folder

/-- Handles the sources below a folder, in order. `view` is the tree as it stands, and `act` handles
one source. The number says how many folders the walk may be inside of, the first one included; it
ends with the error `deep` where there are more. -/
def walk (r : SourceRules) (view : σ → Entry) (act : Location → EStateM ε σ Unit) (deep : ε) :
    Nat → Location → EStateM ε σ Unit
  | 0, _ => throw deep
  | depth + 1, rel => do
    let tree := view (← get)
    (r.filesIn tree rel).forM act
    (r.foldersIn tree rel).forM (r.enter view (walk r view act deep depth))

/-- How many folders a search may be inside of. No folder of the tree lies deeper, and none on the
way to the outputs. There is room for more, as outputs that go through links can be in the way of
the search that they come from. No number is enough for all such builds: there are some that put
new sources before their own search for ever. -/
def depthLimit (tree : Entry) (out : Location) : Nat := out.length + tree.height + 1000

/-- Collects one source. -/
def collect (rel : Location) : EStateM Unit (List Location) Unit := modify (· ++ [rel])

/-- The sources of a tree, in order, as paths below the source folder. -/
def sources (r : SourceRules) (tree : Entry) : List Location :=
  match r.walk (fun _ => tree) collect () (depthLimit tree r.out) [] [] with
  | .ok _ found => found
  | .error _ found => found

end SourceRules

end Wxml
