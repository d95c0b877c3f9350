import Wxml.CommandLine.Word

/-!
# Commands, usage lines and help texts

The commands with the switches that each understands, and the texts that explain them. Help texts
are laid out in two columns; the second starts two characters behind the longest entry of the first,
but never beyond `Help.widest`, and an entry too long for its column has a line of its own.
-/

namespace Wxml.CommandLine

/-- The name of the program. -/
def programName : String := "wxjsx"

/-- The version of the program. -/
def version : String := "0.1.0"

/-- What `--version` prints. -/
def versionText : String := programName ++ " " ++ version ++ "\n"

/-- The settings file that is read if none is named. -/
def defaultConfig : String := "wxjsx.yaml"

/-- The commands. -/
inductive CommandName where
  | compile
  | tokens
  | tree
  | build
  deriving DecidableEq, Repr, Inhabited

namespace CommandName

/-- A command as it is typed. -/
def label : CommandName → String
  | compile => "compile"
  | tokens => "tokens"
  | tree => "tree"
  | build => "build"

/-- Every command, in the order in which they are offered. -/
def all : List CommandName := [compile, tokens, tree, build]

/-- The command that a word names. -/
def ofLabel? (s : String) : Option CommandName := all.find? (·.label = s)

/-- What a command does. -/
def summary : CommandName → String
  | compile => "compile one file and print the result"
  | tokens => "token stream as JSON"
  | tree => "node tree as JSON"
  | build => "compile a source tree per " ++ defaultConfig ++ " (JSON report)"

/-- Whether a command reads one source. -/
def takesSource : CommandName → Bool
  | build => false
  | _ => true

end CommandName

/-- The part of a command line that some words belong to: all of it, or what follows a command. -/
abbrev Scope := Option CommandName

namespace Scope

/-- The switches that are understood in a scope. -/
def switches (scope : Scope) : Switches :=
  [("-h", .help), ("--help", .help)] ++
    match scope with
    | none => [("-v", .version), ("--version", .version), ("--verbose", .verbose)]
    | some .compile => [("-o", .output), ("--output", .output)]
    | some .build => [("-c", .config), ("--config", .config)]
    | some _ => []

/-- What a scope is called in messages. -/
def label : Scope → String
  | none => programName
  | some c => programName ++ " " ++ c.label

/-- The commands to choose from. -/
def choices : String :=
  "\x7b" ++ ",".intercalate (CommandName.all.map (·.label)) ++ "\x7d"

/-- How the words of a scope are put together. -/
def usage (scope : Scope) : String :=
  let words :=
    match scope with
    | none => "[-h] [-v] [--verbose] " ++ choices ++ " ..."
    | some .compile => "[-h] [-o FILE] [FILE|-]"
    | some .build => "[-h] [-c FILE]"
    | some _ => "[-h] [FILE|-]"
  "usage: " ++ scope.label ++ " " ++ words ++ "\n"

end Scope

/-- An entry of a help text: what can be typed, set in by some blanks, and what it means. -/
structure HelpEntry where
  indent : Nat := 2
  term : String
  meaning : String := ""
  deriving Repr

namespace Help

/-- Where the second column starts at the latest. -/
def widest : Nat := 24

/-- Some blanks. -/
def blanks (n : Nat) : String := String.ofList (List.replicate n ' ')

/-- Where the second column starts. -/
def column (entries : List HelpEntry) : Nat :=
  min widest ((entries.map fun e => e.indent + e.term.length).foldl max 0 + 2)

/-- An entry, with its meaning in the second column. -/
def entry (column : Nat) (e : HelpEntry) : String :=
  let term := blanks e.indent ++ e.term
  if e.meaning = "" then term ++ "\n"
  else if term.length + 2 ≤ column then
    term ++ blanks (column - term.length) ++ e.meaning ++ "\n"
  else term ++ "\n" ++ blanks column ++ e.meaning ++ "\n"

/-- The words that a scope takes beside its switches. -/
def positionals : Scope → List HelpEntry
  | none =>
    ⟨2, Scope.choices, ""⟩ :: CommandName.all.map fun c => ⟨4, c.label, c.summary⟩
  | some c =>
    if c.takesSource then [⟨2, "FILE|-", "markup file, or - to read stdin (default)"⟩] else []

/-- The switches of a scope. -/
def options (scope : Scope) : List HelpEntry :=
  ⟨2, "-h, --help", "show this help message and exit"⟩ ::
    match scope with
    | none =>
      [⟨2, "-v, --version", "show program's version number and exit"⟩,
        ⟨2, "--verbose", "log progress to stderr"⟩]
    | some .compile => [⟨2, "-o FILE, --output FILE", "write the result to FILE"⟩]
    | some .build =>
      [⟨2, "-c FILE, --config FILE", "configuration file (default: ./" ++ defaultConfig ++ ")"⟩]
    | some _ => []

/-- What the program is for. -/
def description : Scope → String
  | none => "Compile WXML markup into JSX-like component expressions\n\n"
  | some _ => ""

/-- A titled list of entries; without entries nothing. -/
def part (column : Nat) (title : String) (entries : List HelpEntry) : List String :=
  if entries.isEmpty then [] else [title ++ ":\n" ++ String.join (entries.map (entry column))]

end Help

/-- The help text of a scope. -/
def Scope.help (scope : Scope) : String :=
  let column := Help.column (Help.positionals scope ++ Help.options scope)
  scope.usage ++ "\n" ++ Help.description scope ++
    "\n".intercalate (Help.part column "positional arguments" (Help.positionals scope) ++
      Help.part column "options" (Help.options scope))

end Wxml.CommandLine
