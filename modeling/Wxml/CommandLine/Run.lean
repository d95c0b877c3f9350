import Wxml.Build
import Wxml.CommandLine.Invocation
import Wxml.Settings.Load

/-!
# Running a command

A command is a function of its words and of the world it starts in: the files, the folder it stands
in, the standard input. Its outcome says what it prints, how it ends and what the files are then.
Failures that the user can mend end it with a message and the exit code 2.
-/

namespace Wxml.CommandLine

/-- What a command starts from. -/
structure World where
  tree : Entry
  /-- The folder that relative paths start from. -/
  here : Location
  /-- The standard input. -/
  input : List UInt8
  /-- Whether every notice is to be shown. -/
  debug : Bool
  deriving Repr

/-- What a command did. -/
structure Outcome where
  /-- The exit code, or a failure that no message explains. -/
  ending : Except Failure Nat
  /-- The text on the standard output. -/
  output : String := ""
  /-- The text on the standard error. -/
  errors : String := ""
  tree : Entry

/-- The least level that is shown. -/
def leastLevel (debug verbose : Bool) : Level :=
  if debug then .debug else if verbose then .info else .warning

/-- A notice as a line of the log. -/
def logLine (n : Notice) : String := "[" ++ n.level.label ++ "] " ++ n.message ++ "\n"

/-- The notices that matter enough, as lines. -/
def log (least : Level) (notices : List Notice) : String :=
  String.join ((notices.filter fun n => least.rank ≤ n.level.rank).map logLine)

/-- How a command went: the result or the failure, the notices, and the files afterwards. -/
structure Course (α : Type) where
  result : Except Failure α
  notices : List Notice := []
  tree : Entry

namespace World

/-- The text of a source; a dash stands for the standard input. -/
def source (w : World) (name : String) : Except Failure String :=
  let path := Path.ofString name
  let octets :=
    if name = "-" then .ok w.input
    else if !path.hasNul && w.tree.hasFile w.here path then
      (w.tree.read w.here path).mapError Failure.file
    else .error (.noSourceFile path.text)
  octets.bind fun octets => (Text.decode octets).mapError .decoding

/-- Does something with the text of a source. -/
def withSource {α : Type} (w : World) (name : String)
    (f : String → Except CompileError α × List Notice) : Course α :=
  match w.source name with
  | .error e => { result := .error e, tree := w.tree }
  | .ok text => { result := (f text).1.mapError .compile, notices := (f text).2, tree := w.tree }

/-- Writes a text into a file. -/
def write (w : World) (name text : String) : Except Failure Entry :=
  (w.tree.write w.here (.ofString name) (Text.encode text)).mapError .file

/-- Builds what a settings file says. -/
def build (w : World) (config : String) : Course Report :=
  let path := Path.ofString config
  let settings :=
    if path.hasNul then .error (.file .badName)
    else Settings.load w.tree (.ofLocation (w.tree.resolve w.here path))
  match settings with
  | .error e => { result := .error e, tree := w.tree }
  | .ok s =>
    let (result, state) := Wxml.build s w.tree
    { result, notices := state.notices, tree := state.tree }

/-- Runs a command: the exit code and the text that it prints. -/
def perform (w : World) : Command → Course (Nat × String)
  | .compile source none =>
    let c := w.withSource source Wxml.compile
    { c with result := c.result.map fun code => (0, code ++ "\n") }
  | .compile source (some file) =>
    let c := w.withSource source Wxml.compile
    match c.result.bind fun code => w.write file (code ++ "\n") with
    | .ok tree => { c with result := .ok (0, ""), tree }
    | .error e => { c with result := .error e }
  | .tokens source =>
    let c := w.withSource source readTokens
    { c with result := c.result.map fun ts => (0, (Json.arr (Token.jsonList ts)).render) }
  | .tree source =>
    let c := w.withSource source readTree
    { c with result := c.result.map fun n => (0, n.json.render) }
  | .build config =>
    let c := w.build config
    { c with result := c.result.map fun r => (if r.ok then 0 else 1, r.json.render) }

end World

/-- How a command line that runs no command ends. -/
def Stop.outcome (tree : Entry) : Stop → Outcome
  | help scope => { ending := .ok 0, output := scope.help, tree }
  | version => { ending := .ok 0, output := versionText, tree }
  | usage scope e =>
    { ending := .ok 2
      errors := scope.usage ++ scope.label ++ ": error: " ++ e.message ++ "\n"
      tree }

/-- How a command ends that went some course. -/
def Course.outcome (least : Level) (c : Course (Nat × String)) : Outcome :=
  let errors := log least c.notices
  match c.result with
  | .ok (code, output) => { ending := .ok code, output, errors, tree := c.tree }
  | .error e =>
    match e.message? with
    | some message =>
      { ending := .ok 2, errors := errors ++ Text.trimEnd message ++ "\n", tree := c.tree }
    | none => { ending := .error e, errors, tree := c.tree }

/-- Runs a command line. -/
def run (texts : List String) (w : World) : Outcome :=
  match Invocation.ofTexts texts with
  | .error stop => stop.outcome w.tree
  | .ok i => (w.perform i.command).outcome (leastLevel w.debug i.verbose)

end Wxml.CommandLine
