/-
ShowTree.FileSystem.Disk — a disk with links.

The objects of a disk are known by place. A path is followed part by part: every part but
the last must lead to a directory, two dots lead up from where the links have led, and a
link is replaced by the path in it. Reading, writing, listing and asking go through a link
at the end of the path; making a directory and moving a file mean the link itself. Paths
that do not start with a slash start at the working place.
-/
import ShowTree.FileSystem.Basic
import ShowTree.Path.Place

namespace ShowTree

/-! ## 1. Disks -/

/-- An object on a disk. -/
inductive DiskObject where
  | file (content : ByteArray)
  | dir
  | link (target : Path)

/-- A disk. Its root is always there. -/
structure Disk where
  objects : List (Place × DiskObject)
  /-- Where relative paths start. -/
  workingPlace : Place
  /-- The time of every object. -/
  modified : Option Instant

namespace Disk

/-- A disk with nothing but its root. -/
def new : Disk :=
  ⟨[], .root, none⟩

/-- The object at a place, of which the last one put there counts. -/
def object? (d : Disk) : Place → Option DiskObject
  | .root => some .dir
  | p => (d.objects.find? (·.1 == p)).map (·.2)

/-- The disk with an object at a place, whatever was there. -/
def put (d : Disk) (p : Place) (o : DiskObject) : Disk :=
  { d with objects := (p, o) :: d.objects.filter (·.1 != p) }

/-- The disk without the object at a place. -/
def remove (d : Disk) (p : Place) : Disk :=
  { d with objects := d.objects.filter (·.1 != p) }

def isDirAt (d : Disk) (p : Place) : Bool :=
  match d.object? p with
  | some .dir => true
  | _ => false

theorem object?_put {d : Disk} {p : Place} (h : p ≠ .root) (o : DiskObject) (q : Place) :
    (d.put p o).object? q = if q = p then some o else d.object? q := by
  by_cases hq : q = p
  · subst hq
    cases q with
    | root => exact absurd rfl h
    | entry dir name => simp [object?, put]
  · cases q with
    | root => simp [object?, hq]
    | entry dir name =>
      have hne : ¬p = .entry dir name := fun e => hq e.symm
      simp only [object?, put, hq, if_false]
      rw [List.find?_cons_of_neg (by simpa using hne), List.find?_filter]
      congr 2
      funext e
      by_cases he : e.1 = .entry dir name <;> simp [he, hq]

/-- The names in the directory at a place, in rising order. -/
def namesAt (d : Disk) (p : Place) : List String :=
  (d.objects.filterMap fun (q, _) =>
    match q with
    | .entry dir name => if dir = p then some name.text else none
    | .root => none).mergeSort (fun a b => decide (a ≤ b))

/-! ## 2. Following a path -/

/-- The longest path, and the longest name, in bytes. -/
def pathLimit : Nat := 4095

def nameLimit : Nat := 255

/-- How many links a path can lead through. -/
def linkLimit : Nat := 40

/-- Whether a path ends in a slash, so that it can only mean a directory. -/
def endsInSlash (p : Path) : Bool :=
  p.text.toList.getLast? == some '/'

/-- The parts of a path that are walked, single dots included. -/
def steps (p : Path) : List Part :=
  p.pieces.filterMap Part.ofFirst?

/-- The same with a dot for the slash at the end. -/
def stepsWithSlash (p : Path) : List Part :=
  if endsInSlash p then steps p ++ [.here] else steps p

/-- Where a path leads: to an object, or to a free place in a directory. -/
inductive Spot where
  | taken (place : Place)
  | free (place : Place)

/-- Follows parts from a place, through at most `links` links. A link at the end is
followed if `through` says so. -/
def walk (d : Disk) (through : Bool) (links : Nat) (place : Place) (parts : List Part) :
    Except SystemError Spot :=
  match parts with
  | [] => .ok (.taken place)
  | part :: rest =>
    if !d.isDirAt place then .error .notDirectory
    else
      match part with
      | .name name =>
        if name.text.utf8ByteSize > nameLimit then .error .nameTooLong
        else
          match d.object? (.entry place name), links with
          | none, _ => if rest.isEmpty then .ok (.free (.entry place name)) else .error .notFound
          | some (.link target), links =>
            if rest.isEmpty && !through then .ok (.taken (.entry place name))
            else
              match links with
              | 0 => .error .tooManyLinks
              | links + 1 =>
                walk d through links (if target.isAbsolute then .root else place)
                  (stepsWithSlash target ++ rest)
          | some _, links => walk d through links (.entry place name) rest
      | part => walk d through links (place.step part) rest
  termination_by (links, parts.length)

/-- What is wrong with a path before it is followed. -/
def complaint? (p : Path) : Option SystemError :=
  if '\x00' ∈ p.text.toList then some .zeroCharacter
  else if p.text.isEmpty then some .notFound
  else if p.text.utf8ByteSize > pathLimit then some .nameTooLong
  else none

/-- Where these parts of a path lead. -/
def follow (d : Disk) (through : Bool) (p : Path) (parts : List Part) : Except SystemError Spot :=
  match complaint? p with
  | some e => .error e
  | none => d.walk through linkLimit (if p.isAbsolute then .root else d.workingPlace) parts

/-- The place of the object that a path leads to through all links. -/
def locate (d : Disk) (p : Path) : Except SystemError Place := do
  match ← d.follow true p (stepsWithSlash p) with
  | .taken place => .ok place
  | .free _ => .error .notFound

/-- The directory above the last part of a path. -/
def locateDir (d : Disk) (p : Path) : Except SystemError Place := do
  match ← d.follow true p (steps p).dropLast with
  | .taken place => if d.isDirAt place then .ok place else .error .notDirectory
  | .free _ => .error .notFound

/-! ## 3. Calls -/

def present (d : Disk) (p : Path) : Bool :=
  (d.locate p).isOk

def isFile (d : Disk) (p : Path) : Bool :=
  match d.locate p with
  | .ok place => !d.isDirAt place
  | .error _ => false

def isDir (d : Disk) (p : Path) : Bool :=
  match d.locate p with
  | .ok place => d.isDirAt place
  | .error _ => false

def read (d : Disk) (p : Path) : Except SystemError ByteArray := do
  match d.object? (← d.locate p) with
  | some (.file content) => .ok content
  | some .dir => .error .isDirectory
  | _ => .error .notFound

/-- A directory has the size of a block. -/
def blockSize : Nat := 4096

def stat (d : Disk) (p : Path) : Except SystemError Stat := do
  let name := (p.fileName?.map Name.text).getD "/"
  match d.object? (← d.locate p) with
  | some (.file content) => .ok ⟨name, content.size, d.modified, false⟩
  | some .dir => .ok ⟨name, blockSize, d.modified, true⟩
  | _ => .error .notFound

def list (d : Disk) (p : Path) : Except SystemError (List String) := do
  let place ← d.locate p
  if d.isDirAt place then .ok (d.namesAt place) else .error .notDirectory

/-- A file is not written at a path that can only mean a directory. -/
def write (d : Disk) (p : Path) (content : ByteArray) : Except SystemError Disk := do
  if endsInSlash p then
    let _ ← d.locateDir p
    .error .isDirectory
  else
    match ← d.follow true p (steps p) with
    | .free place => .ok (d.put place (.file content))
    | .taken place =>
      if d.isDirAt place then .error .isDirectory else .ok (d.put place (.file content))

/-- A slash at the end does not matter here. -/
def makeDir (d : Disk) (p : Path) : Except SystemError Disk := do
  match ← d.follow false p (steps p) with
  | .free place => .ok (d.put place .dir)
  | .taken _ => .error .alreadyExists

/-- The place that the last part of a path names in its directory. Dots and the root cannot
be moved, nor have something moved there. -/
def entryAt (p : Path) (dir : Place) : Except SystemError Place :=
  match (steps p).getLast? with
  | some (.name name) => .ok (.entry dir name)
  | _ => .error .busy

/-- Whether the name of a place is longer than names can be. -/
def tooLong : Place → Bool
  | .root => false
  | .entry _ name => name.text.utf8ByteSize > nameLimit

/-- Moves a file or a link into the place of another or into a free place. -/
def rename (d : Disk) (source target : Path) : Except SystemError Disk := do
  let sourceDir ← d.locateDir source
  let targetDir ← d.locateDir target
  let sourcePlace ← entryAt source sourceDir
  let targetPlace ← entryAt target targetDir
  if tooLong sourcePlace || tooLong targetPlace then .error .nameTooLong
  else
    match d.object? sourcePlace with
    | none => .error .notFound
    | some .dir => .error .isDirectory
    | some object =>
      if endsInSlash source || endsInSlash target then .error .notDirectory
      else if sourcePlace = targetPlace then .ok d
      else if d.isDirAt targetPlace then .error .isDirectory
      else .ok ((d.remove sourcePlace).put targetPlace object)

/-- An answer of the system as that of the call for `p`. -/
def answer {α : Type} (p : Path) (ask : Disk → Except SystemError α) :
    StateM Disk (Except FileError α) :=
  fun d => ((ask d).mapError (FileError.ofSystemError p), d)

/-- Takes a change over, or leaves the disk alone where it was refused. -/
def change (p : Path) (act : Disk → Except SystemError Disk) :
    StateM Disk (Except FileError Unit) :=
  fun d =>
    match act d with
    | .ok d' => (.ok (), d')
    | .error e => (.error (.ofSystemError p e), d)

instance : FileSystem (StateM Disk) where
  read p := answer p (·.read p)
  write p content := change p (·.write p content)
  present p := fun d => (d.present p, d)
  isFile p := fun d => (d.isFile p, d)
  isDir p := fun d => (d.isDir p, d)
  stat p := answer p (·.stat p)
  list p := answer p (·.list p)
  makeDir p := change p (·.makeDir p)
  rename source target := change source (·.rename source target)

/-! ## 4. Making a disk -/

/-- Puts a directory at a place and at all places above it that have none. -/
def putDirs (d : Disk) : Place → Disk
  | .root => d
  | .entry dir name =>
    let d := d.putDirs dir
    if (d.object? (.entry dir name)).isSome then d else d.put (.entry dir name) .dir

/-- Puts an object at a place, in directories that are made if they are missing. -/
def putBelow (d : Disk) (p : Place) (o : DiskObject) : Disk :=
  match p with
  | .root => d
  | .entry dir name => (d.putDirs dir).put (.entry dir name) o

end Disk

end ShowTree
