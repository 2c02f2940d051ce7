/-
ShowTree.Cursor — finding the objects of a selector one at a time.

A cursor remembers for every segment how far it has come, so that the next match can be
asked for later. When there are no more it is back at the start. A failure leaves it
where it was, except that a segment with a single candidate starts over.
-/
import ShowTree.Matches

namespace ShowTree

/-- How far a segment has come. -/
inductive Progress where
  /-- It has not been asked. -/
  | fresh
  /-- Its one candidate is being followed. -/
  | following (place : Place)
  /-- It is the last segment, and has given its one candidate. -/
  | spent
  /-- The names still to be tried, and the candidate that is being followed. -/
  | listing (names : List String) (place : Option Place)
  deriving DecidableEq

/-- A selector and how far its segments have come. -/
structure Cursor where
  selector : Selector
  progress : List Progress

/-- A cursor at the start. -/
def Cursor.ofSelector (s : Selector) : Cursor :=
  ⟨s, s.segments.map fun _ => .fresh⟩

/-- The next match, or none, or a failure. -/
abbrev Pull := Except Failure (Option Place)

variable {m : Type → Type} [Monad m] [FileSystem m]

/-- How a chain is asked for its next match from a seed. -/
abbrev Puller (m : Type → Type) := Place → List Progress → StateT Cache m (Pull × List Progress)

/-- Follows the one candidate of a segment. -/
def Cursor.follow (last : Bool) (pull : Puller m) (place : Place) (rest : List Progress) :
    StateT Cache m (Pull × List Progress) := do
  if last then pure (.ok (some place), .spent :: rest)
  else
    match ← pull place rest with
    | (.ok (some found), rest) => pure (.ok (some found), .following place :: rest)
    | (answer, rest) => pure (answer, .fresh :: rest)

/-- Asks a segment with at most one candidate. -/
def Cursor.pullSingle (s : Segment) (last : Bool) (pull : Puller m) (seed : Place)
    (own : Progress) (rest : List Progress) : StateT Cache m (Pull × List Progress) := do
  match own with
  | .spent => pure (.ok none, .fresh :: rest)
  | .following place => follow last pull place rest
  | _ =>
    match ← (s.candidate seed : Work m _).run with
    | .ok (some place) => follow last pull place rest
    | .ok none => pure (.ok none, .fresh :: rest)
    | .error e => pure (.error e, .fresh :: rest)

/-- Follows a candidate of a wildcard, and goes on with `others` when nothing more comes
of it. -/
def Cursor.followListed (pull : Puller m) (names : List String) (place : Place)
    (others : Puller m) (seed : Place) (rest : List Progress) :
    StateT Cache m (Pull × List Progress) := do
  match ← pull place rest with
  | (.ok none, rest) => others seed rest
  | (answer, rest) => pure (answer, .listing names (some place) :: rest)

/-- Tries the names of a directory. -/
def Cursor.pullNames (pattern : String) (last : Bool) (pull : Puller m) :
    List String → Puller m
  | [], _, rest => pure (.ok none, .fresh :: rest)
  | name :: names, seed, rest => do
    if Wildcard.accepts pattern name then
      match ← (Cache.meetIfPresent (seed.path.join name) : Work m _).run with
      | .ok (some place) =>
        if last then pure (.ok (some place), .listing names none :: rest)
        else followListed pull names place (pullNames pattern last pull names) seed rest
      | .ok none => pullNames pattern last pull names seed rest
      | .error e => pure (.error e, .listing names none :: rest)
    else pullNames pattern last pull names seed rest

/-- Asks a wildcard. The directory is listed once, at the start. -/
def Cursor.pullWildcard (pattern : String) (last : Bool) (pull : Puller m) (seed : Place)
    (own : Progress) (rest : List Progress) : StateT Cache m (Pull × List Progress) := do
  match own with
  | .listing names (some place) =>
    followListed pull names place (pullNames pattern last pull names) seed rest
  | .listing names none => pullNames pattern last pull names seed rest
  | _ =>
    match ← (Cache.children seed : Work m _).run with
    | .ok names => pullNames pattern last pull names seed rest
    | .error e => pure (.error e, own :: rest)

/-- Asks a chain of segments for its next match. -/
def Cursor.pullChain : List Segment → Puller m
  | .wildcard pattern :: segments, seed, own :: rest =>
    pullWildcard pattern segments.isEmpty (pullChain segments) seed own rest
  | segment :: segments, seed, own :: rest =>
    pullSingle segment segments.isEmpty (pullChain segments) seed own rest
  | _, _, progress => pure (.ok none, progress)

/-- The next match from `seed`, and the cursor after it. -/
def Cursor.next (c : Cursor) (seed : Place) : StateT Cache m (Pull × Cursor) := do
  let (answer, progress) ← pullChain c.selector.segments seed c.progress
  pure (answer, { c with progress := progress })

/-- The cursor back at the start. -/
def Cursor.reset (c : Cursor) : Cursor :=
  .ofSelector c.selector

end ShowTree
