/-
ShowTree.CommandLine.Command — what a command line asks for.
-/
import ShowTree.CommandLine.Arguments
import ShowTree.Session.Basic

namespace ShowTree.CommandLine

/-- What a run is to do. -/
inductive Command where
  /-- Evaluate an expression. -/
  | eval (expr : String)
  /-- Set user data of targets. -/
  | setUser (assignments targets : List String)
  /-- Name the root of the show of a target. -/
  | showRoot (target : String)
  /-- Make shows. -/
  | createShows (expr : String)
  /-- Name the prototypes of targets. -/
  | protosOf (targets : List String)
  /-- List the prototypes that can be seen from a target. -/
  | listProtos (target : String)
  /-- Link a target to a prototype. -/
  | linkProto (target name : String)
  /-- Make objects. -/
  | create (kind : ObjectKind) (proto : Option String) (expr : String)
  /-- Make objects contracts for a pattern. -/
  | setContracts (pattern expr : String)
  deriving DecidableEq

/-- The expression that a command is given, which is shown again if it is ill-formed. -/
def Command.source? : Command → Option String
  | .eval expr | .createShows expr | .create _ _ expr | .setContracts _ expr => some expr
  | _ => none

/-- A command, with what else is asked of the run. -/
structure Invocation where
  command : Command
  /-- A configuration file instead of the usual one. -/
  config : Option String
  /-- The name of a log level. -/
  logLevel : Option String
  logFile : Option String
  deriving DecidableEq

namespace Scan

/-- The first word, or the one that is meant when there is none. -/
def wordOr (s : Scan) (fallback : String) : String :=
  s.words.headD fallback

/-- The words, or the working directory when there are none. -/
def targets (s : Scan) : List String :=
  if s.words.isEmpty then ["."] else s.words

/-- The first word, which there must be. -/
def word (s : Scan) (name : String) : Except Misuse String :=
  match s.words with
  | word :: _ => .ok word
  | [] => .error (.missingWord name)

/-- The command of arguments that have been read. -/
def command (s : Scan) : Except Misuse Command :=
  match s.level with
  | .top | .help => .error .missingCommand
  | .get => .ok (.eval (s.wordOr ""))
  | .set =>
    match s.values .data with
    | [] => .error (.missingSwitch .data)
    | data => .ok (.setUser data s.targets)
  | .shows => .ok (.showRoot (s.wordOr "."))
  | .newShow => .createShows <$> s.word "EXPR"
  | .protos => .ok (.protosOf s.targets)
  | .listProtos => .ok (.listProtos (s.wordOr "."))
  | .linkProto =>
    match s.words with
    | [target, name] => .ok (.linkProto target name)
    | _ => .error (.missingWord "NAME")
  | .new => do
    let kind := if (s.value? .file).isSome then .file else .dir
    .ok (.create kind (s.value? .proto) (← s.word "EXPR"))
  | .contract =>
    match s.value? .pattern with
    | none => .error (.missingSwitch .pattern)
    | some pattern => .setContracts pattern <$> s.word "EXPR"

end Scan

/-- What the arguments of a run ask for. -/
def Invocation.ofArguments (args : List String) : Except Stop Invocation := do
  let s ← Scan.ofArguments args
  let command ← s.command.mapError .misuse
  .ok ⟨command, s.value? .config, s.value? .logLevel, s.value? .logFile⟩

end ShowTree.CommandLine
