/-
ShowTree.Session.Request — runs of a session.

A session is asked for one thing after another; whether a request succeeds or fails, the
next one starts with what it left behind.
-/
import ShowTree.FileSystem.Watched
import ShowTree.Session.Basic

namespace ShowTree

/-- Something that a session is asked for. -/
inductive Request where
  | eval (source : String)
  | setUser (target key value : String)
  | showRoot (target : String)
  | protoOf (target : String)
  | listProtos (target : String)
  | linkProto (target name : String)
  | createObjects (source : String) (kind : ObjectKind) (proto : Option String)
  | createShows (source : String)
  | setContracts (source pattern : String)

namespace Request

variable {m : Type → Type} [Monad m] [FileSystem m]

/-- Does what is asked for, whatever comes of it. -/
def run : Request → StateT Cache m Unit
  | .eval source => do let _ ← (Session.eval source : Action m Value).run
  | .setUser target key value => do let _ ← (Session.setUser target key value : Action m Unit).run
  | .showRoot target => do let _ ← (Session.showRoot target : Action m Path).run
  | .protoOf target => do let _ ← (Session.protoOf target : Action m (Option String)).run
  | .listProtos target => do
    let _ ← (Session.listProtos target : Action m (Dictionary String)).run
  | .linkProto target name => do let _ ← (Session.linkProto target name : Action m Path).run
  | .createObjects source kind proto => do
    let _ ← (Session.createObjects source kind proto : Action m Batch).run
  | .createShows source => do let _ ← (Session.createShows source : Action m Batch).run
  | .setContracts source pattern => do
    let _ ← (Session.setContracts source pattern : Action m Batch).run

/-- Does one thing after another. -/
def runAll : List Request → StateT Cache m Unit
  | [] => pure ()
  | request :: rest => do
    request.run
    runAll rest

/-- Does one thing after another in a watched tree; what is left is the cache and the tree. -/
def watch (requests : List Request) (start : Cache) (w : Watched) : Cache × Watched :=
  let out := ((runAll requests : StateT Cache (StateM Watched) Unit).run start).run w
  (out.1.2, out.2)

end Request

end ShowTree
