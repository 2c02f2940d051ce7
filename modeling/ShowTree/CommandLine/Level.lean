/-
ShowTree.CommandLine.Level — what can be written on the command line, and where.

A command line is read level by level. A command opens a level, which has options, words
and perhaps further commands of its own; a few options belong to every level.
-/

namespace ShowTree.CommandLine

/-! ## 1. Options -/

/-- An option, which is given by name or by letter, with or without a value. -/
inductive Switch where
  | config
  | logLevel
  | logFormat
  | logFile
  | data
  | file
  | proto
  | pattern
  | help
  | version
  deriving DecidableEq

namespace Switch

/-- What follows the two dashes. -/
def name : Switch → String
  | .config => "config"
  | .logLevel => "log-level"
  | .logFormat => "log-format"
  | .logFile => "log-file"
  | .data => "data"
  | .file => "file"
  | .proto => "proto"
  | .pattern => "pattern"
  | .help => "help"
  | .version => "version"

/-- What follows a single dash. -/
def letter? : Switch → Option Char
  | .data => some 'd'
  | .file => some 'f'
  | .proto => some 'p'
  | .pattern => some 'p'
  | .help => some 'h'
  | .version => some 'V'
  | _ => none

def takesValue : Switch → Bool
  | .file | .help | .version => false
  | _ => true

/-- Whether the option can be given more than once on a level. -/
def repeats (s : Switch) : Bool :=
  s == .data

/-- The options of every level. -/
def everywhere : List Switch :=
  [.config, .logLevel, .logFormat, .logFile, .help]

end Switch

/-! ## 2. Levels -/

/-- A level of the command line: the top, or what a command opens. -/
inductive Level where
  | top
  | get
  | set
  | shows
  | newShow
  | protos
  | listProtos
  | linkProto
  | new
  | contract
  | help
  deriving DecidableEq

namespace Level

/-- The commands of a level. -/
def commands : Level → List (String × Level)
  | .top => [("get", .get), ("set", .set), ("show", .shows), ("proto", .protos), ("new", .new),
      ("contract", .contract), ("help", .help)]
  | .shows => [("new", .newShow), ("help", .help)]
  | .protos => [("list", .listProtos), ("set", .linkProto), ("help", .help)]
  | _ => []

/-- Whether a command of this level has to be the first thing on it. Where words can stand
for targets, a command after anything else is taken for such a word. -/
def commandComesFirst : Level → Bool
  | .shows | .protos => true
  | _ => false

/-- The options of a level. -/
def switches : Level → List Switch
  | .top => Switch.everywhere ++ [.version]
  | .set => Switch.everywhere ++ [.data]
  | .new => Switch.everywhere ++ [.file, .proto]
  | .contract => Switch.everywhere ++ [.pattern]
  | _ => Switch.everywhere

/-- How many words a level has room for; any number where there is no limit. -/
def room : Level → Option Nat
  | .top | .help => some 0
  | .set | .protos => none
  | .linkProto => some 2
  | _ => some 1

/-- The level that a command opens. -/
def command? (l : Level) (name : String) : Option Level :=
  l.commands.lookup name

/-- The option with a name. -/
def switchNamed? (l : Level) (name : String) : Option Switch :=
  l.switches.find? (·.name == name)

/-- The option with a letter. -/
def switchLettered? (l : Level) (letter : Char) : Option Switch :=
  l.switches.find? (·.letter? == some letter)

end Level

/-! ## 3. Help -/

/-- An option as it is shown to people. -/
def Switch.usage (s : Switch) : String :=
  let letter := match s.letter? with
    | some c => "-" ++ c.toString ++ ", "
    | none => ""
  "  " ++ letter ++ "--" ++ s.name ++ (if s.takesValue then " <VALUE>" else "")

/-- What can be written on a level, for people. -/
def Level.usage (l : Level) : String :=
  let commands := l.commands.map fun c => "  " ++ c.1
  let lines := "Usage: showfs" ::
    (if commands.isEmpty then [] else "Commands:" :: commands) ++
    "Options:" :: l.switches.map Switch.usage
  String.join (lines.map (· ++ "\n"))

/-- The name and version of the program. -/
def versionLine : String :=
  "showfs 0.1.0\n"

end ShowTree.CommandLine
