import Wxml.Compile
import Wxml.Failure
import Wxml.Json
import Wxml.Pattern
import Wxml.Sources

/-!
# Building a source tree

Every source is compiled and its code written below the output folder, at the same place and with
the output suffix. A document that does not compile ends the build or is reported, as the settings
say. Everything else that goes wrong ends the build; what was written before stays.

How exclude patterns are read and how deep the search for sources may get are arguments of a build,
with those of the program as their defaults.
-/

namespace Wxml

/-- What a build did. -/
structure Report where
  /-- The outputs, as paths below the output folder. -/
  compiled : List String := []
  /-- The sources that did not compile, as paths below the source folder. -/
  failed : List (String × CompileError) := []
  deriving Repr

/-- Whether every source compiled. -/
def Report.ok (r : Report) : Bool := r.failed.isEmpty

/-- A report as an object. -/
def Report.json (r : Report) : Json :=
  .obj [("ok", .bool r.ok), ("compiled", .arr (r.compiled.map .str)),
    ("failed", .arr (r.failed.map fun (path, e) =>
      .obj [("path", .str path), ("error", .str e.message)]))]

/-- A build on its way: the tree so far, the report so far, and what was noticed. -/
structure BuildState where
  tree : Entry
  report : Report := {}
  notices : List Notice := []

/-- A step of a build. It may fail, and then leaves the state as it was at the failure. -/
abbrev BuildM := EStateM Failure BuildState

namespace Settings

/-- The output of a source, as a path below the output folder. -/
def outputBelow (s : Settings) (rel : Location) : Except Failure Location :=
  if isSuffix s.suffix then .ok (rel.dropLast ++ [withSuffix (rel.getLastD "") s.suffix])
  else .error (.suffix s.suffix)

/-- The output of a source. -/
def outputOf (s : Settings) (rel : Location) : Except Failure Location :=
  (s.outputBelow rel).map (s.out ++ ·)

/-- The rules that the settings give if a predicate says what is left out. -/
def rulesExcluding (s : Settings) (excluded : String → Bool) : SourceRules :=
  ⟨s.src, s.out, s.extensions.map Text.lower, excluded⟩

/-- The rules that the settings give for finding sources. -/
def sourceRules (s : Settings) (matcher : Matcher) : Except Failure SourceRules :=
  match matcher s.exclude with
  | .ok excluded => .ok (s.rulesExcluding excluded)
  | .error pattern => .error (.pattern pattern)

end Settings

namespace BuildM

/-- Takes the value of a computation that may fail. -/
def ofExcept {α : Type} : Except Failure α → BuildM α
  | .ok a => pure a
  | .error e => throw e

/-- Adds notices. -/
def notice (ns : List Notice) : BuildM Unit :=
  modify fun s => { s with notices := s.notices ++ ns }

/-- The text of a source. -/
def readSource (src rel : Location) : BuildM String := do
  let state ← get
  let octets ← ofExcept ((state.tree.read [] (.ofLocation (src ++ rel))).mapError .file)
  ofExcept ((Text.decode octets).mapError .decoding)

/-- Writes an output. -/
def writeOutput (target : Location) (code : String) : BuildM Unit := do
  let state ← get
  let tree ← ofExcept ((state.tree.makeFolders [] target.dropLast).mapError .file)
  set { state with tree }
  let octets := Text.encode (code ++ "\n")
  let tree ← ofExcept ((tree.write [] (.ofLocation target) octets).mapError .file)
  set { state with tree }

/-- Reports an output. -/
def reportCompiled (path : String) : BuildM Unit :=
  modify fun s => { s with report := { s.report with compiled := s.report.compiled ++ [path] } }

/-- Reports a source that does not compile. -/
def reportFailed (path : String) (e : CompileError) : BuildM Unit :=
  modify fun s => { s with report := { s.report with failed := s.report.failed ++ [(path, e)] } }

/-- Compiles one source. -/
def source (s : Settings) (rel : Location) : BuildM Unit := do
  let text ← readSource s.src rel
  let path := rel.relativeText
  let (result, notices) := compile text
  notice notices
  match result with
  | .error e =>
    if s.failFast then throw (.source path e)
    notice [.sourceFailed path e]
    reportFailed path e
  | .ok code =>
    let below ← ofExcept (s.outputBelow rel)
    writeOutput (s.out ++ below) code
    reportCompiled below.relativeText
    notice [.sourceCompiled path]

end BuildM

/-- The failure of a build whose search for sources comes too deep. -/
def Failure.tooDeep : Failure := .file .tooManyLinks

/-- Builds what the settings say. -/
def buildAll (s : Settings) (matcher : Matcher) (depth : Nat) : BuildM Unit := do
  let tree := (← get).tree
  if tree.hasFolder [] (.ofLocation s.src) then
    let rules ← BuildM.ofExcept (s.sourceRules matcher)
    rules.walk BuildState.tree (BuildM.source s) .tooDeep depth []
  else throw (.noSourceFolder (Location.text s.src))

/-- Builds a tree: the report or the failure that ended the build, and the state it left. -/
def build (s : Settings) (tree : Entry) (matcher : Matcher := Rule.matcher)
    (depth : Nat := SourceRules.depthLimit tree s.out) : Except Failure Report × BuildState :=
  match buildAll s matcher depth { tree } with
  | .ok _ state => (.ok state.report, state)
  | .error e state => (.error e, state)

/-- The sources that the settings select in a tree. -/
def sourcesOf (s : Settings) (tree : Entry) (matcher : Matcher := Rule.matcher) :
    Except Failure (List Location) :=
  (s.sourceRules matcher).map (·.sources tree)

end Wxml
