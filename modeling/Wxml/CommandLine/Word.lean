import Wxml.Text.Digit
import Wxml.Text.Quoted

/-!
# Words of a command line

Each word is classified by its form alone, before any of them is acted on: a plain word, the divider
after which every word is plain, or a switch. A long switch may be shortened as long as one spelling
fits. A value may be attached to a switch, after an equals sign or, behind a short one, directly.
Behind a short switch that takes no value, further short switches may be attached.
-/

namespace Wxml.CommandLine

/-- What a switch asks for. -/
inductive Flag where
  | help
  | version
  | verbose
  | output
  | config
  deriving DecidableEq, Repr, Inhabited

/-- Whether a switch needs a value. -/
def Flag.takesValue : Flag → Bool
  | output => true
  | config => true
  | _ => false

/-- The spellings that are understood, in the order in which they are offered. -/
abbrev Switches := List (String × Flag)

/-- Every spelling of a flag. -/
def Switches.label (switches : Switches) (flag : Flag) : String :=
  "/".intercalate ((switches.filter (·.2 = flag)).map (·.1))

/-- What is wrong with a command line. -/
inductive UsageError where
  /-- A shortened switch that fits several spellings. -/
  | ambiguous (word : String) (spellings : List String)
  /-- A value attached to a switch that takes none. -/
  | ignoredValue (label value : String)
  /-- A switch without the value it takes. -/
  | missingValue (label : String)
  /-- No command is named. -/
  | noCommand
  /-- A word stands where a command is named, and is none of those that exist. -/
  | unknownCommand (word : String) (commands : List String)
  /-- Words that nothing asks for. -/
  | unrecognized (words : List String)
  deriving DecidableEq, Repr

/-- The error in words. -/
def UsageError.message : UsageError → String
  | ambiguous word spellings =>
    "ambiguous option: " ++ word ++ " could match " ++ ", ".intercalate spellings
  | ignoredValue label value =>
    "argument " ++ label ++ ": ignored explicit argument " ++ Text.quoted value
  | missingValue label => "argument " ++ label ++ ": expected one argument"
  | noCommand => "the following arguments are required: cmd"
  | unknownCommand word commands =>
    "argument cmd: invalid choice: " ++ Text.quoted word ++ " (choose from " ++
      ", ".intercalate (commands.map Text.quoted) ++ ")"
  | unrecognized words => "unrecognized arguments: " ++ " ".intercalate words

/-- How a value hangs on a switch. -/
inductive Attachment where
  /-- After an equals sign. -/
  | equals (value : List Char)
  /-- Directly behind a short switch. -/
  | direct (value : List Char)
  deriving DecidableEq, Repr

/-- What a word is by its form. -/
inductive Form where
  | plain
  /-- Two dashes: every later word is plain. -/
  | divider
  | switch (flag : Flag) (value : Option Attachment)
  /-- Looks like a switch and is none. -/
  | unknown
  deriving DecidableEq, Repr

/-- A word and what it is. -/
structure Word where
  text : String
  form : Form
  deriving DecidableEq, Repr

/-- Whether a text is a number below zero: a dash, then digits with at most one point, and a digit
last. One line break may follow. -/
def isNegativeNumber (s : List Char) : Bool :=
  let body := if s.getLast? = some '\n' then s.dropLast else s
  match body with
  | '-' :: rest =>
    match rest.dropWhile Text.isDigit with
    | [] => rest != []
    | '.' :: fraction => fraction != [] && fraction.all Text.isDigit
    | _ => false
  | _ => false

/-- The parts of a text around its first equals sign. -/
def splitEquals (s : List Char) : List Char × Option (List Char) :=
  match s.dropWhile (· != '=') with
  | [] => (s, none)
  | _ :: value => (s.takeWhile (· != '='), some value)

namespace Switches

/-- The long switches whose spelling starts with some characters. -/
def longMatches (switches : Switches) (start : List Char) : Switches :=
  switches.filter fun (spelling, _) => start.isPrefixOf spelling.toList

/-- What a word that starts with a dash is, if neither it nor its part before an equals sign is
a spelling. -/
def classifyInexact (switches : Switches) (word : String) : Except UsageError Form :=
  let otherwise : Form :=
    if isNegativeNumber word.toList || word.toList.contains ' ' then .plain else .unknown
  match word.toList with
  | '-' :: '-' :: _ =>
    let (start, value) := splitEquals word.toList
    match switches.longMatches start with
    | [] => .ok otherwise
    | [(_, flag)] => .ok (.switch flag (value.map .equals))
    | several => .error (.ambiguous word (several.map (·.1)))
  | '-' :: c :: rest =>
    match switches.lookup (String.ofList ['-', c]) with
    | some flag => .ok (.switch flag (some (.direct rest)))
    | none => .ok otherwise
  | _ => .ok otherwise

/-- What a word is. -/
def classify (switches : Switches) (word : String) : Except UsageError Form :=
  if word.toList.head? != some '-' then .ok .plain
  else
    match switches.lookup word with
    | some flag => .ok (.switch flag none)
    | none =>
      if word = "-" then .ok .plain
      else
        let (start, value) := splitEquals word.toList
        match value, switches.lookup (String.ofList start) with
        | some value, some flag => .ok (.switch flag (some (.equals value)))
        | _, _ => switches.classifyInexact word

/-- Classifies words up to the divider; behind it every word is plain. -/
def words (switches : Switches) : List String → Except UsageError (List Word)
  | [] => .ok []
  | "--" :: rest => .ok (⟨"--", .divider⟩ :: rest.map (⟨·, .plain⟩))
  | word :: rest => do
    let form ← switches.classify word
    let more ← words switches rest
    return ⟨word, form⟩ :: more

end Switches

/-- What one word with switches gives: the switches with their values, and what is left of the word
where a short switch is attached that is none. -/
structure Group where
  flags : List (Flag × String)
  left : List String := []
  /-- Whether the last switch takes its value from the next word. -/
  isOpen : Bool := false
  deriving Repr

namespace Group

/-- A switch with nothing attached. -/
def single (flag : Flag) : Group := ⟨[(flag, "")], [], flag.takesValue⟩

/-- A group with a switch in front. -/
def cons (flag : Flag) (g : Group) : Group := { g with flags := (flag, "") :: g.flags }

/-- Reads a switch with a value after an equals sign. -/
def ofEquals (switches : Switches) (flag : Flag) (value : List Char) : Except UsageError Group :=
  if flag.takesValue then .ok ⟨[(flag, String.ofList value)], [], false⟩
  else .error (.ignoredValue (switches.label flag) (String.ofList value))

/-- Reads a short switch that takes no value, with what is attached directly to it: more short
switches, of which the last may have a value. -/
def ofAttached (switches : Switches) (flag : Flag) : List Char → Except UsageError Group
  | [] => .ok (single flag)
  | c :: rest =>
    if c = '-' then .error (.ignoredValue (switches.label flag) (String.ofList (c :: rest)))
    else
      match switches.lookup (String.ofList ['-', c]) with
      | none => .ok ⟨[(flag, "")], [String.ofList ('-' :: c :: rest)], false⟩
      | some next =>
        let group : Except UsageError Group :=
          match rest with
          | [] => .ok (single next)
          | '=' :: value => ofEquals switches next value
          | d :: more =>
            if next.takesValue then ofEquals switches next (d :: more)
            else ofAttached switches next (d :: more)
        group.map (cons flag)

/-- Reads a switch with what is attached to it. -/
def ofSwitch (switches : Switches) (flag : Flag) : Option Attachment → Except UsageError Group
  | none => .ok (single flag)
  | some (.equals value) => ofEquals switches flag value
  | some (.direct value) =>
    if flag.takesValue then ofEquals switches flag value else ofAttached switches flag value

end Group

end Wxml.CommandLine
