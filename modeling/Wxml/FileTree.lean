import Wxml.Path

/-!
# File trees

Files, folders and symbolic links as one value. A path is followed part by part from a location:
two dots lead to the folder above, a link leads on from the folder that holds it, or from the root.
Every operation answers with a new tree or says why the path does not lead where it should.

**What is left out.** Names and paths may have any length, and whoever asks may read and write
everything. A path is followed through `linkLimit` links at most. `Entry.resolve` stops there as
well: the parts behind are taken as they are, where one could go on along a longer chain of links,
or see that the links lead in a ring. A path that can be followed to its end has no such parts.
-/

namespace Wxml

/-- A file, a folder with its named entries, or a symbolic link. -/
inductive Entry where
  | file (bytes : List UInt8)
  | folder (entries : List (String × Entry))
  | link (target : String)
  deriving Repr, Inhabited

/-- Why a path does not lead where it should. -/
inductive FileError where
  /-- Nothing is there. -/
  | notFound
  /-- The path goes through something that is not a folder. -/
  | notFolder
  /-- A folder stands where a file is needed. -/
  | isFolder
  /-- Something else stands where a folder is needed. -/
  | alreadyExists
  /-- The path goes through too many links, or a search through too many folders. -/
  | tooManyLinks
  /-- A name holds a character that no name can hold. -/
  | badName
  deriving DecidableEq, Repr, Inhabited

/-- How many links a path may go through. -/
def linkLimit : Nat := 40

namespace Entry

/-- Whether an entry is a link. -/
def isLink : Entry → Bool
  | link _ => true
  | _ => false

/-- The entry at a location. Links are not followed. -/
def get? : Entry → Location → Option Entry
  | e, [] => some e
  | folder es, name :: rest => (es.lookup name).bind (get? · rest)
  | _, _ :: _ => none

/-- The entries of a folder with one of them set. -/
def setNamed (es : List (String × Entry)) (name : String) (e : Entry) : List (String × Entry) :=
  match es with
  | [] => [(name, e)]
  | (n, old) :: rest => if n = name then (n, e) :: rest else (n, old) :: setNamed rest name e

/-- The tree with the entry at a location set. Folders on the way are made where nothing is. -/
def put : Entry → Location → Entry → Entry
  | _, [], new => new
  | folder es, name :: rest, new =>
    folder (setNamed es name (((es.lookup name).getD (folder [])).put rest new))
  | e, _ :: _, _ => e

mutual

/-- How many folders lie inside one another. -/
def height : Entry → Nat
  | file _ => 0
  | link _ => 0
  | folder es => heightAll es + 1

/-- The greatest height among some entries. -/
def heightAll : List (String × Entry) → Nat
  | [] => 0
  | (_, e) :: es => max e.height (heightAll es)

end

mutual

/-- The files below a location, with their contents, in the order of the tree. -/
def files (here : Location) : Entry → List (Location × List UInt8)
  | file bytes => [(here, bytes)]
  | link _ => []
  | folder es => filesAll here es

/-- The files below some entries of a folder. -/
def filesAll (here : Location) : List (String × Entry) → List (Location × List UInt8)
  | [] => []
  | (name, e) :: es => files (here ++ [name]) e ++ filesAll here es

end

/-- Where a path ends: at an entry that is no link, or in a folder that has no such entry. -/
inductive Place where
  | found (location : Location) (entry : Entry)
  | vacant (location : Location)
  deriving Repr

/-- How far a path leads without links: to its end, or to a link with some parts to go. -/
inductive Stop where
  | ends (place : Place)
  | link (here : Location) (target : String) (rest : List String)
  deriving Repr

/-- Follows a path from a location to its end, or to the first link. -/
def descend (tree : Entry) (here : Location) : List String → Except FileError Stop
  | [] =>
    match tree.get? here with
    | some e => .ok (.ends (.found here e))
    | none => .error .notFound
  | part :: rest =>
    match tree.get? here with
    | some (folder _) =>
      if part = ".." then tree.descend here.dropLast rest
      else
        match tree.get? (here ++ [part]) with
        | some (link target) => .ok (.link here target rest)
        | some _ => tree.descend (here ++ [part]) rest
        | none => if rest = [] then .ok (.ends (.vacant (here ++ [part]))) else .error .notFound
    | some _ => .error .notFolder
    | none => .error .notFound

/-- Follows a path from a location, links included, to where it ends. -/
def follow (tree : Entry) (links : Nat) (here : Location) (parts : List String) :
    Except FileError Place :=
  match tree.descend here parts with
  | .error e => .error e
  | .ok (.ends place) => .ok place
  | .ok (.link here target rest) =>
    match links with
    | 0 => .error .tooManyLinks
    | links + 1 =>
      let path := Path.ofString target
      tree.follow links (if path.isAbsolute then [] else here) (path.parts ++ rest)

/-- Where a path from a location leads. -/
def find (tree : Entry) (here : Location) (p : Path) : Except FileError Place :=
  follow tree linkLimit (if p.isAbsolute then [] else here) p.parts

/-- Goes along a path up to the first link: the location before it, and the parts from it on. Parts
that lead nowhere are taken as they are. -/
def untilLink (tree : Entry) (here : Location) : List String → Location × List String
  | [] => (here, [])
  | part :: rest =>
    if part = ".." then tree.untilLink here.dropLast rest
    else
      match tree.get? (here ++ [part]) with
      | some (link _) => (here, part :: rest)
      | _ => tree.untilLink (here ++ [part]) rest

/-- The location that a path stands for, with every link on the way replaced by its target. All
parts behind too many links are taken as they are. -/
def resolveParts (tree : Entry) (links : Nat) (here : Location) (parts : List String) : Location :=
  match tree.untilLink here parts with
  | (place, []) => place
  | (place, part :: rest) =>
    match links, tree.get? (place ++ [part]) with
    | links + 1, some (link target) =>
      let path := Path.ofString target
      tree.resolveParts links (if path.isAbsolute then [] else place) (path.parts ++ rest)
    | _, _ => place.along (part :: rest)

/-- The location that a path stands for, seen from a location. It need not be there. -/
def resolve (tree : Entry) (here : Location) (p : Path) : Location :=
  resolveParts tree linkLimit (if p.isAbsolute then [] else here) p.parts

/-- The entry that a path leads to, links followed. -/
def entry? (tree : Entry) (here : Location) (p : Path) : Option Entry :=
  match tree.find here p with
  | .ok (.found _ e) => some e
  | _ => none

/-- Whether a path leads to a folder. -/
def hasFolder (tree : Entry) (here : Location) (p : Path) : Bool :=
  match tree.entry? here p with
  | some (folder _) => true
  | _ => false

/-- Whether a path leads to a file. -/
def hasFile (tree : Entry) (here : Location) (p : Path) : Bool :=
  match tree.entry? here p with
  | some (file _) => true
  | _ => false

/-- The contents of the file that a path leads to. -/
def read (tree : Entry) (here : Location) (p : Path) : Except FileError (List UInt8) :=
  if p.hasNul then .error .badName
  else
    match tree.find here p with
    | .ok (.found _ (file bytes)) => .ok bytes
    | .ok (.found _ _) => .error .isFolder
    | .ok (.vacant _) => .error .notFound
    | .error e => .error e

/-- The tree with the file that a path leads to written. -/
def write (tree : Entry) (here : Location) (p : Path) (bytes : List UInt8) :
    Except FileError Entry :=
  if p.hasNul then .error .badName
  else
    match tree.find here p with
    | .ok (.found _ (folder _)) => .error .isFolder
    | .ok (.found l _) => .ok (tree.put l (file bytes))
    | .ok (.vacant l) => .ok (tree.put l (file bytes))
    | .error e => .error e

/-- The tree with a folder made in the folder that some parts lead to, unless it is there. What is
there under the name may be a link, as long as that leads to a folder. -/
def makeFolder (tree : Entry) (here : Location) (above : List String) (name : String) :
    Except FileError Entry :=
  match tree.find here ⟨"", above⟩ with
  | .ok (.found l (folder es)) =>
    if (es.lookup name).isNone then .ok (tree.put (l ++ [name]) (folder []))
    else if tree.hasFolder here ⟨"", above ++ [name]⟩ then .ok tree
    else .error .alreadyExists
  | .ok (.found _ _) => .error .notFolder
  | .ok (.vacant _) => .error .notFound
  | .error e => .error e

/-- The tree with a folder made and, if there is no folder to make it in, those above it made first.
The names are given from the last one up. -/
def makeFoldersUp (tree : Entry) (here : Location) : List String → Except FileError Entry
  | [] => .ok tree
  | name :: above =>
    match tree.makeFolder here above.reverse name with
    | .error .notFound =>
      (tree.makeFoldersUp here above).bind (·.makeFolder here above.reverse name)
    | answer => answer

/-- The tree with a chain of folders made below a location, as far as they are missing. -/
def makeFolders (tree : Entry) (here : Location) (parts : List String) : Except FileError Entry :=
  tree.makeFoldersUp here parts.reverse

end Entry

end Wxml
