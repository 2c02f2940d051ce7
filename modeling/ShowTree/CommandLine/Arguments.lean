/-
ShowTree.CommandLine.Arguments — reading the arguments of a run.

The arguments are read one after the other, and the first that does not fit ends the
reading. What an argument is depends on what came before it: a command, an option, the
value of the option before it, or a word. After two dashes everything is a word.
-/
import ShowTree.CommandLine.Level
import ShowTree.Text.Split

namespace ShowTree.CommandLine

/-! ## 1. Why reading ends early -/

/-- What is wrong with a command line. -/
inductive Misuse where
  | unknownSwitch (text : String)
  | missingValue (switch : Switch)
  | unwantedValue (switch : Switch)
  | repeatedSwitch (switch : Switch)
  | badValue (switch : Switch) (value : String)
  | unexpectedWord (text : String)
  | unknownCommand (text : String)
  | missingCommand
  | missingSwitch (switch : Switch)
  | missingWord (name : String)
  deriving DecidableEq

def Misuse.message : Misuse → String
  | .unknownSwitch text => "unexpected argument '" ++ text ++ "' found"
  | .missingValue s => "a value is required for '--" ++ s.name ++ "' but none was supplied"
  | .unwantedValue s => "unexpected value for '--" ++ s.name ++ "' found"
  | .repeatedSwitch s => "the argument '--" ++ s.name ++ "' cannot be used multiple times"
  | .badValue s value => "invalid value '" ++ value ++ "' for '--" ++ s.name ++ "'"
  | .unexpectedWord text => "unexpected argument '" ++ text ++ "' found"
  | .unknownCommand text => "unrecognized subcommand '" ++ text ++ "'"
  | .missingCommand => "a subcommand is required but one was not provided"
  | .missingSwitch s => "the required argument '--" ++ s.name ++ "' was not provided"
  | .missingWord name => "the required argument <" ++ name ++ "> was not provided"

/-- Why the reading of a command line ends early: people ask for help or for the version,
or it is misused. -/
inductive Stop where
  | help (level : Level)
  | version
  | misuse (misuse : Misuse)
  deriving DecidableEq

/-! ## 2. The state of reading -/

/-- What the next argument can be. -/
inductive Expecting where
  | anything
  /-- Only the value of an option. -/
  | value (switch : Switch)
  /-- Only words. -/
  | words
  /-- Only the name of a command to be explained. -/
  | topic
  deriving DecidableEq

/-- What has been read. -/
structure Scan where
  level : Level
  expecting : Expecting
  /-- The options with their values, on all levels. -/
  given : List (Switch × String)
  /-- The options on this level. -/
  givenHere : List Switch
  /-- The words on this level. -/
  words : List String
  deriving DecidableEq

namespace Scan

/-- Before the first argument. -/
def start : Scan :=
  ⟨.top, .anything, [], [], []⟩

/-- Whether nothing has been read on this level. -/
def isFresh (s : Scan) : Bool :=
  s.givenHere.isEmpty && s.words.isEmpty

/-- The value of an option; that on the deepest level counts. -/
def value? (s : Scan) (switch : Switch) : Option String :=
  s.given.reverse.lookup switch

/-- All values of an option. -/
def values (s : Scan) (switch : Switch) : List String :=
  s.given.filterMap fun (sw, value) => if sw = switch then some value else none

/-! ## 3. One argument -/

/-- The forms in which a log can be written. -/
def logFormats : List String :=
  ["pretty", "compact", "json"]

/-- Whether an option can have this value: a log has one of its forms, and a file has a
name. -/
def accepts (switch : Switch) (value : String) : Bool :=
  match switch with
  | .logFormat => logFormats.contains value
  | .config | .logFile => !value.isEmpty
  | _ => true

/-- An option with its value, if it takes one. -/
def give (s : Scan) (switch : Switch) (value : String) : Except Stop Scan :=
  if switch = .help then .error (.help s.level)
  else if switch = .version then .error .version
  else if s.givenHere.contains switch && !switch.repeats then
    .error (.misuse (.repeatedSwitch switch))
  else if !accepts switch value then .error (.misuse (.badValue switch value))
  else .ok { s with
    expecting := .anything
    given := s.given ++ [(switch, value)]
    givenHere := switch :: s.givenHere }

/-- A word, if there is room for it. -/
def addWord (s : Scan) (word : String) : Except Stop Scan :=
  if s.level.room.all (s.words.length < ·) then .ok { s with words := s.words ++ [word] }
  else if s.level.commands.isEmpty then .error (.misuse (.unexpectedWord word))
  else .error (.misuse (.unknownCommand word))

/-- A command. -/
def enter (s : Scan) (level : Level) : Scan :=
  if level = .help then { s with expecting := .topic }
  else ⟨level, s.expecting, s.given, [], []⟩

/-- The level that an argument opens, if it is a command here. -/
def opened? (s : Scan) (arg : String) : Option Level :=
  if s.level.commandComesFirst && !s.isFresh then none else s.level.command? arg

/-- An option by name, with its value if that is in the same argument. -/
def readNamed (s : Scan) (name : List Char) (value? : Option (List Char)) : Except Stop Scan :=
  match s.level.switchNamed? (String.ofList name), value? with
  | none, _ => .error (.misuse (.unknownSwitch ("--" ++ String.ofList name)))
  | some switch, some value =>
    if switch.takesValue then s.give switch (String.ofList value)
    else .error (.misuse (.unwantedValue switch))
  | some switch, none =>
    if switch.takesValue then .ok { s with expecting := .value switch } else s.give switch ""

/-- The value behind the letter of an option in the same argument, after an equals sign
that may stand between them. Without either the value is yet to come. -/
def attached? : List Char → Option (List Char)
  | [] => none
  | '=' :: cs => some cs
  | cs => some cs

/-- Options by letter. The first that takes a value takes what is behind it. -/
def readLetters (s : Scan) : List Char → Except Stop Scan
  | [] => .ok s
  | c :: cs =>
    match s.level.switchLettered? c with
    | none => .error (.misuse (.unknownSwitch ("-" ++ c.toString)))
    | some switch =>
      if switch.takesValue then
        match attached? cs with
        | some value => s.give switch (String.ofList value)
        | none => .ok { s with expecting := .value switch }
      else do
        let s ← s.give switch ""
        s.readLetters cs

/-- An argument that can be anything. -/
def readAny (s : Scan) (arg : String) : Except Stop Scan :=
  match s.opened? arg with
  | some level => .ok (s.enter level)
  | none =>
    match arg.toList with
    | ['-', '-'] => .ok { s with expecting := .words }
    | '-' :: '-' :: cs =>
      let (name, value?) := Text.cutAt '=' cs
      s.readNamed name value?
    | '-' :: c :: cs => s.readLetters (c :: cs)
    | _ => s.addWord arg

/-- Whether an argument looks like an option. A single dash alone does not. -/
def isDashed (arg : String) : Bool :=
  match arg.toList with
  | '-' :: _ :: _ => true
  | _ => false

/-- One argument more. -/
def read (s : Scan) (arg : String) : Except Stop Scan :=
  match s.expecting with
  | .anything => s.readAny arg
  | .words => s.addWord arg
  | .value switch =>
    if isDashed arg then .error (.misuse (.missingValue switch)) else s.give switch arg
  | .topic =>
    match s.level.command? arg with
    | some level => .ok ⟨level, .topic, s.given, [], []⟩
    | none => .error (.misuse (.unknownCommand arg))

/-- After the last argument. -/
def finish (s : Scan) : Except Stop Scan :=
  match s.expecting with
  | .value switch => .error (.misuse (.missingValue switch))
  | .topic => .error (.help s.level)
  | _ => .ok s

/-- All arguments of a run. -/
def ofArguments (args : List String) : Except Stop Scan := do
  finish (← args.foldlM read start)

end Scan

end ShowTree.CommandLine
