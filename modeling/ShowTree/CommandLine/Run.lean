/-
ShowTree.CommandLine.Run — a run of the program.

A run reads its arguments, its settings and the name of the log level, opens the log, and
then does what the command asks. The answer is JSON over several lines on the standard
output, and complaints go to the standard error output. The exit code is 0 if all went
well, 2 if the run was called in a wrong way, and 1 if anything else failed.
-/
import ShowTree.CommandLine.Command
import ShowTree.Settings.Basic

namespace ShowTree.CommandLine

/-- What a run leaves behind besides its changes. -/
structure Outcome where
  exit : UInt32
  out : String
  err : String
  deriving DecidableEq

namespace Outcome

/-- A run that ends with a complaint. -/
def complaint (exit : UInt32) (text : String) : Outcome :=
  ⟨exit, "", "error: " ++ text ++ "\n"⟩

/-- A run that never came to a command. -/
def ofStop : Stop → Outcome
  | .help level => ⟨0, level.usage, ""⟩
  | .version => ⟨0, versionLine, ""⟩
  | .misuse m => complaint 2 m.message

end Outcome

/-- The lines that tell people of a refusal. An ill-formed expression is shown with a mark
under the place of the error. -/
def complaintLines (source : Option String) (e : Refusal) : List String :=
  let r := e.report
  let marked := match e, source with
    | .illFormed error, some source =>
      ["  | " ++ source, "  | " ++ SyntaxError.caretLine (error.columnIn source)]
    | _, _ => []
  ["error: " ++ r.short] ++ marked ++ r.path.toList.map fun p => "  = path: " ++ p.text

/-- The answer of a command, and whether all of it went well. -/
structure Answer where
  json : Json
  complete : Bool

def Answer.ofBatch (b : Batch) : Answer :=
  ⟨b.toJson, b.succeeded⟩

/-- An answer that is either there or refused. -/
def Answer.whole (json : Json) : Answer :=
  ⟨json, true⟩

def Outcome.ofAnswer (source : Option String) : Except Refusal Answer → Outcome
  | .ok a => ⟨if a.complete then 0 else 1, a.json.toLines ++ "\n", ""⟩
  | .error e => ⟨1, "", String.join ((complaintLines source e).map (· ++ "\n"))⟩

variable {m : Type → Type} [Monad m] [FileSystem m] {α : Type}

/-! ## 1. Commands -/

/-- An action whose refusal is part of the answer. -/
def attempt (act : Action m α) : Action m (Except Refusal α) :=
  ExceptT.lift act.run

/-- Sets user data of every target. What a target refuses does not keep the others from
being tried. -/
def setUserOfAll (pairs : List (String × String)) (targets : List String) : Action m Batch :=
  targets.foldlM (fun b target => do
    match ← attempt (pairs.forM fun (key, value) => Session.setUser target key value) with
    | .ok () => pure (b.addDone ⟨target⟩)
    | .error e => pure (b.addFailed ⟨target⟩ e)) .empty

/-- The prototypes of targets, and the targets that failed. -/
structure ProtoLookup where
  protos : Dictionary (Option String)
  failed : List (Path × Report)

namespace ProtoLookup

def toJson (l : ProtoLookup) : Json :=
  let protos := l.protos.entries.map fun (target, proto) => (target, (proto.map .text).getD .null)
  .object [("protos", .object protos), ("failed", Report.failedToJson l.failed)]

/-- One target more. -/
def add (l : ProtoLookup) (target : String) : Except Refusal (Option String) → ProtoLookup
  | .ok proto => { l with protos := l.protos.insert target proto }
  | .error e => { l with failed := l.failed ++ [(⟨target⟩, e.report)] }

/-- Looks up the prototypes of targets. -/
def ofTargets (targets : List String) : Action m ProtoLookup :=
  targets.foldlM (fun l target => do
    pure (l.add target (← attempt (Session.protoOf target)))) ⟨.empty, []⟩

end ProtoLookup

namespace Command

/-- Does what a command asks. -/
def perform : Command → Action m Answer
  | .eval expr => do
    pure (.whole (← Session.eval expr).toJson)
  | .setUser assignments targets => do
    let pairs ← assignments.mapM fun text => ExceptT.mk (pure (parseAssignment text))
    .ofBatch <$> setUserOfAll pairs targets
  | .showRoot target => do
    pure (.whole (.text (← Session.showRoot target).text))
  | .createShows expr =>
    .ofBatch <$> Session.createShows expr
  | .protosOf targets => do
    let l ← ProtoLookup.ofTargets targets
    pure ⟨l.toJson, l.failed.isEmpty⟩
  | .listProtos target => do
    let protos ← Session.listProtos target
    pure (.whole (.object (protos.entries.map fun (name, reference) => (name, .text reference))))
  | .linkProto target name => do
    let proto ← Session.linkProto target name
    pure (.whole (.object [("proto", .text proto.text), ("target", .text target)]))
  | .create kind proto expr =>
    .ofBatch <$> Session.createObjects expr kind proto
  | .setContracts pattern expr =>
    .ofBatch <$> Session.setContracts expr pattern

end Command

/-! ## 2. Settings and log -/

/-- The configuration file that is used if it is there and no other is asked for. -/
def usualConfig : String := "showfs.json"

/-- The settings in a file, or the complaint about it. -/
def readSettings (file : Path) : m (Except String Settings) := do
  let unreadable (reason : String) := "无法读取 '" ++ file.text ++ "': " ++ reason
  match ← FileSystem.read file with
  | .error e => pure (.error (unreadable e.wording))
  | .ok content =>
    match String.fromUTF8? content with
    | none => pure (.error (unreadable "stream did not contain valid UTF-8"))
    | some text =>
      match Settings.decode? text with
      | some settings => pure (.ok settings)
      | none => pure (.error ("解析 '" ++ file.text ++ "' 失败"))

/-- The settings of a run: those in the file that is asked for, or in the usual file of the
working directory. -/
def loadSettings (workingDir : Path) : Option String → m (Except String Settings)
  | some file => readSettings ⟨file⟩
  | none => do
    let file := workingDir.join usualConfig
    if ← FileSystem.isFile file then readSettings file else pure (.ok .default)

/-- Makes sure that there is a log file. What is in it stays. -/
def openLog : Option String → m (Except FileError Unit)
  | none => pure (.ok ())
  | some file => do
    if ← FileSystem.isFile ⟨file⟩ then pure (.ok ()) else FileSystem.write ⟨file⟩ .empty

/-! ## 3. Runs -/

/-- Does what a command asks, in a session of its own. -/
def runCommand (layout : Layout) (workingDir : Path) (c : Command) : m Outcome := do
  match Cache.start layout workingDir with
  | .error e => pure (.ofAnswer none (.error (.failure e)))
  | .ok cache =>
    let (answer, _) ← (c.perform (m := m)).run.run cache
    pure (.ofAnswer c.source? answer)

/-- What comes of an invocation. -/
def Invocation.run (workingDir : Path) (i : Invocation) : m Outcome := do
  match ← loadSettings workingDir i.config with
  | .error text => pure (.complaint 1 text)
  | .ok settings =>
    match i.logLevel.filter fun name => (LogLevel.parse? name).isNone with
    | some name => pure (.complaint 2 ("unknown log level '" ++ name ++ "'"))
    | none =>
      match ← openLog i.logFile with
      | .error e => pure (.complaint 1 ("cannot open log file: " ++ e.wording))
      | .ok () => runCommand settings.layout workingDir i.command

/-- A run with these arguments. -/
def run (workingDir : Path) (args : List String) : m Outcome :=
  match Invocation.ofArguments args with
  | .error stop => pure (.ofStop stop)
  | .ok i => i.run workingDir

end ShowTree.CommandLine
