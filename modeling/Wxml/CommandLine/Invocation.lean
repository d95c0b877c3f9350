import Wxml.CommandLine.Help

/-!
# Invocations

What a command line asks for. Switches act in the order in which they stand, so help or the version
is given although a later word is wrong. A plain word in front of the command names it, and every
later word belongs to the command. Words that nothing asks for are collected, and refused when all
others are understood.
-/

namespace Wxml.CommandLine

/-- A command with what it works on. -/
inductive Command where
  /-- Compiles a source, into a file or to the standard output. -/
  | compile (source : String) (output : Option String)
  /-- Lists the tokens of a source. -/
  | tokens (source : String)
  /-- Shows the tree of a source. -/
  | tree (source : String)
  /-- Builds a source tree as a settings file says. -/
  | build (config : String)
  deriving DecidableEq, Repr

/-- What a command line asks for. -/
structure Invocation where
  /-- Whether progress is to be shown. -/
  verbose : Bool
  command : Command
  deriving DecidableEq, Repr

/-- Why a command line runs no command. -/
inductive Stop where
  /-- Help on a scope is asked for. -/
  | help (scope : Scope)
  /-- The version is asked for. -/
  | version
  /-- The words make no sense. -/
  | usage (scope : Scope) (error : UsageError)
  deriving DecidableEq, Repr

/-- What the words of a scope give. -/
structure Given where
  /-- The switches that do not stop the reading, in their order, each with its value. -/
  flags : List (Flag × String) := []
  /-- The plain words that were taken, if any: the command and all that follows, or a source. -/
  taken : Option (List String) := none
  /-- The words that nothing asks for. -/
  left : List String := []
  deriving Repr

namespace Given

/-- Acts on switches in their order. -/
def act (scope : Scope) (given : Given) : List (Flag × String) → Except Stop Given
  | [] => .ok given
  | (.help, _) :: _ => .error (.help scope)
  | (.version, _) :: _ => .error .version
  | flag :: rest => act scope { given with flags := given.flags ++ [flag] } rest

/-- The words that a scope takes from the front of some plain ones, and the others. A command takes
all words behind it. A source takes one word, and a divider on either side; the word may be
missing. -/
def take (scope : Scope) (words : List Word) : Option (List String × List Word) :=
  match scope with
  | none =>
    match words with
    | [⟨_, .divider⟩] => none
    | words => some (words.map (·.text), [])
  | some c =>
    if c.takesSource then
      match words with
      | ⟨_, .divider⟩ :: w :: rest => some ([w.text], rest)
      | [⟨_, .divider⟩] => some ([], [])
      | w :: ⟨_, .divider⟩ :: rest => some ([w.text], rest)
      | w :: rest => some ([w.text], rest)
      | [] => none
    else none

/-- Each scope takes words from the front only. -/
theorem take_shorter {scope : Scope} {w : Word} {words : List Word} {taken : List String}
    {rest : List Word} (h : take scope (w :: words) = some (taken, rest)) :
    rest.length < (w :: words).length := by
  unfold take at h
  grind

/-- Reads the words of a scope. -/
def read (scope : Scope) (given : Given) (words : List Word) : Except Stop Given :=
  match words with
  | [] => .ok given
  | ⟨text, .unknown⟩ :: rest => read scope { given with left := given.left ++ [text] } rest
  | ⟨_, .switch flag value⟩ :: rest =>
    match Group.ofSwitch scope.switches flag value with
    | .error e => .error (.usage scope e)
    | .ok g =>
      let given := { given with left := given.left ++ g.left }
      if g.isOpen then
        let last := (g.flags.getLastD (flag, "")).1
        match rest with
        | ⟨value, .plain⟩ :: rest => do
          let given ← given.act scope (g.flags.dropLast ++ [(last, value)])
          read scope given rest
        | _ => .error (.usage scope (.missingValue (scope.switches.label last)))
      else do
        let given ← given.act scope g.flags
        read scope given rest
  | w :: rest =>
    match h : if given.taken.isNone then take scope (w :: rest) else none with
    | some (taken, others) =>
      have : others.length < rest.length + 1 := by
        split at h
        · exact take_shorter h
        · cases h
      read scope { given with taken := some taken } others
    | none => read scope { given with left := given.left ++ [w.text] } rest
termination_by words.length

/-- Reads the words of a scope from their texts. -/
def ofTexts (scope : Scope) (texts : List String) : Except Stop Given :=
  match scope.switches.words texts with
  | .error e => .error (.usage scope e)
  | .ok words => read scope {} words

/-- The value of a switch, the last one if it was given several times. -/
def value? (given : Given) (flag : Flag) : Option String :=
  (given.flags.reverse.find? (·.1 = flag)).map (·.2)

/-- The source that was given; a dash stands for the standard input. -/
def source (given : Given) : String := ((given.taken.getD []).head?).getD "-"

/-- The command that was given. -/
def command (given : Given) : CommandName → Command
  | .compile =>
    .compile given.source ((given.value? .output).filter (· != ""))
  | .tokens => .tokens given.source
  | .tree => .tree given.source
  | .build => .build ((given.value? .config).getD defaultConfig)

end Given

/-- Reads a command line. -/
def Invocation.ofTexts (texts : List String) : Except Stop Invocation := do
  let outer ← Given.ofTexts none texts
  match outer.taken with
  | none => throw (.usage none .noCommand)
  | some taken =>
    let name := taken.headD ""
    match CommandName.ofLabel? name with
    | none => throw (.usage none (.unknownCommand name (CommandName.all.map (·.label))))
    | some c =>
      let inner ← Given.ofTexts (some c) taken.tail
      let left := outer.left ++ inner.left
      if left.isEmpty then
        return ⟨(outer.value? .verbose).isSome, inner.command c⟩
      else throw (.usage none (.unrecognized left))

end Wxml.CommandLine
