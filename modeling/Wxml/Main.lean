import Wxml.CommandLine.Run

/-!
# The program

Shows the world to `CommandLine.run` and brings about what it answers. Only what a command can reach
is looked at: the files that its words name and, for a build, the source folder with all that is in
it and the place of the output folder.
-/

namespace Wxml.Program

open CommandLine

/-- What is left on a stream. -/
partial def readAll (stream : IO.FS.Stream) : IO (List UInt8) := do
  let octets ← stream.read 65536
  if octets.isEmpty then return []
  return octets.toList ++ (← readAll stream)

/-- What lies at a location, if anything does. Links are not followed. -/
def kindAt (l : Location) : IO (Option IO.FS.FileType) := do
  let path := (← IO.currentDir) / l.text
  try return some (← path.symlinkMetadata).type
  catch _ => return none

/-- Where a link ends. One that leads nowhere is taken as a link to itself. -/
def endOf (l : Location) : IO String := do
  try return toString (← IO.FS.realPath l.text)
  catch _ => return l.text

/-- The names in a folder. -/
def namesIn (l : Location) : IO (List String) := do
  let path := (← IO.currentDir) / l.text
  return (← path.readDir).toList.map (·.fileName)

/-- Adds to the tree what lies at a location: a file with its contents, a link with the place where
it ends, a folder with all or with nothing of what is in it. -/
partial def look (l : Location) (deep : Bool) : StateT Entry IO Unit := do
  match ← kindAt l with
  | none => return
  | some .dir =>
    if ((← get).get? l).isNone then modify fun tree => tree.put l (.folder [])
    if deep then
      for name in ← namesIn l do
        look (l ++ [name]) true
  | some .symlink =>
    let target ← endOf l
    modify fun tree => tree.put l (.link target)
    let place := (Path.ofString target).parts
    if ((← get).get? place).isNone then look place false
  | some _ =>
    let octets ← IO.FS.readBinFile l.text
    modify fun tree => tree.put l (.file octets.toList)

/-- Adds to the tree what a path goes through and where it leads. -/
def lookAlong (here : Location) (p : Path) : StateT Entry IO Unit := do
  let start := if p.isAbsolute then [] else here
  for n in List.range (p.parts.length + 1) do
    look ((← get).resolve start ⟨"", p.parts.take n⟩) false

/-- The files that a command names. -/
def named : Command → List String
  | .compile source output => source :: output.toList
  | .tokens source => [source]
  | .tree source => [source]
  | .build config => [config]

/-- The settings that a command reads, as far as the tree shows them. -/
def settingsFor (here : Location) (tree : Entry) : Command → Option Settings
  | .build config =>
    (Settings.load tree (.ofLocation (tree.resolve here (.ofString config)))).toOption
  | _ => none

/-- Adds to the tree what a command can reach. The settings are read again when the links on the way
to their folders are known. -/
def lookFor (here : Location) (command : Command) : StateT Entry IO Unit := do
  look here false
  for name in named command do
    lookAlong here (.ofString name)
  if let some s := settingsFor here (← get) command then
    lookAlong [] (.ofLocation s.src)
    lookAlong [] (.ofLocation s.out)
  if let some s := settingsFor here (← get) command then
    look s.src true

/-- Writes the files that differ between two trees. -/
def save (before after : Entry) : IO Unit := do
  let old := before.files []
  for (l, octets) in after.files [] do
    if old.lookup l != some octets then
      IO.FS.createDirAll (Location.text l.dropLast)
      IO.FS.writeBinFile l.text ⟨octets.toArray⟩

/-- The world that a command line starts in. -/
def worldFor (texts : List String) : IO World := do
  let here := (Path.ofString (toString (← IO.currentDir))).parts
  let debug := ((← IO.getEnv "WXJSX_DEBUG").getD "") != ""
  match Invocation.ofTexts texts with
  | .error _ => return ⟨.folder [], here, [], debug⟩
  | .ok i =>
    let input ← if (named i.command).head? == some "-" then readAll (← IO.getStdin) else pure []
    let (_, tree) ← (lookFor here i.command).run (.folder [])
    return ⟨tree, here, input, debug⟩

end Wxml.Program

/-- Runs a command line. A failure that no message explains ends the program with the code 1. -/
def main (texts : List String) : IO UInt32 := do
  let world ← Wxml.Program.worldFor texts
  let outcome := Wxml.CommandLine.run texts world
  Wxml.Program.save world.tree outcome.tree
  IO.eprint outcome.errors
  IO.print outcome.output
  match outcome.ending with
  | .ok code => return code.toUInt32
  | .error _ =>
    IO.eprintln "A file is missing, or is not what it should be."
    return 1
