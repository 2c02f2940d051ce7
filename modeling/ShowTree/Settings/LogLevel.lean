/-
ShowTree.Settings.LogLevel — how much is logged, and by whom.

Every component logs under a target of its own. A filter has one level for each of these
targets and one for all others, and an event passes if the level of the longest target
that its own starts with lets it.
-/
import ShowTree.Text.LowerCase

namespace ShowTree

/-- How much is logged, from nothing to everything. -/
inductive LogLevel where
  | silent
  | error
  | warn
  | info
  | debug
  | trace
  deriving DecidableEq

namespace LogLevel

/-- The place of a level in the order. -/
def rank : LogLevel → Nat
  | .silent => 0
  | .error => 1
  | .warn => 2
  | .info => 3
  | .debug => 4
  | .trace => 5

/-- The level with this name in a configuration file. -/
def ofName? (name : String) : Option LogLevel :=
  match name with
  | "silent" => some .silent
  | "error" => some .error
  | "warn" => some .warn
  | "info" => some .info
  | "debug" => some .debug
  | "trace" => some .trace
  | _ => none

/-- The level with this name on the command line, where case does not matter and silence
can also be called `off`. -/
def parse? (text : String) : Option LogLevel :=
  let name := Text.lower text
  if name = "off" then some .silent else ofName? name

end LogLevel

/-- The parts that log. -/
inductive Component where
  | resolver
  | cache
  | proto
  | expr
  | api
  | cli
  deriving DecidableEq

namespace Component

def all : List Component :=
  [.resolver, .cache, .proto, .expr, .api, .cli]

def name : Component → String
  | .resolver => "resolver"
  | .cache => "cache"
  | .proto => "proto"
  | .expr => "expr"
  | .api => "api"
  | .cli => "cli"

/-- The target under which a component logs. -/
def target (c : Component) : String :=
  "showfs::" ++ c.name

end Component

/-- The levels asked for: one for everything, and others for some components. -/
structure LogSettings where
  level : Option LogLevel
  resolver : Option LogLevel
  cache : Option LogLevel
  proto : Option LogLevel
  expr : Option LogLevel
  deriving DecidableEq

/-- The level that was asked for a component alone. -/
def LogSettings.override (s : LogSettings) : Component → Option LogLevel
  | .resolver => s.resolver
  | .cache => s.cache
  | .proto => s.proto
  | .expr => s.expr
  | .api | .cli => none

/-- The level of everything: the one given for this run, or else the one in the settings,
or else warnings. -/
def LogSettings.global (s : LogSettings) (given : Option LogLevel) : LogLevel :=
  (given <|> s.level).getD .warn

/-- The level of a component. -/
def LogSettings.levelOf (s : LogSettings) (given : Option LogLevel) (c : Component) : LogLevel :=
  (s.override c).getD (s.global given)

/-- Levels by target, and one for all other targets. -/
structure LogFilter where
  fallback : LogLevel
  levels : List (String × LogLevel)

namespace LogFilter

/-- The filter of the settings. -/
def ofSettings (s : LogSettings) (given : Option LogLevel) : LogFilter :=
  ⟨s.global given, Component.all.map fun c => (c.target, s.levelOf given c)⟩

/-- The longer of two rules. -/
def longer (a b : String × LogLevel) : String × LogLevel :=
  if a.1.length < b.1.length then b else a

/-- The level for a target. -/
def levelFor (f : LogFilter) (target : String) : LogLevel :=
  match f.levels.filter fun rule => rule.1.toList.isPrefixOf target.toList with
  | [] => f.fallback
  | rule :: rules => (rules.foldl longer rule).2

/-- Whether an event of this level under this target is logged. -/
def passes (f : LogFilter) (target : String) (level : LogLevel) : Bool :=
  level.rank ≤ (f.levelFor target).rank

end LogFilter

end ShowTree
