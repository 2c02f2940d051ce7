/-
ShowTree.FileSystem.Tree — a file system in memory.

A tree is a dictionary from keys to entries. A path's key has slashes for backslashes and
no slash at its end. That the entries form a tree is not built in: writing a file and
making a directory ask for a directory above, making directories all the way puts missing
ones in, and moving a file asks for a directory above its new place.
-/
import ShowTree.Dictionary
import ShowTree.FileSystem.Basic

namespace ShowTree

/-! ## 1. Keys -/

/-- Characters without the slashes at their end, down to the last character. The characters
come backwards. -/
def dropSlashes : List Char → List Char
  | '/' :: c :: rest => dropSlashes (c :: rest)
  | cs => cs

/-- The key of a path. -/
def Path.key (p : Path) : String :=
  let slashed := p.text.toList.map fun c => if c = '\\' then '/' else c
  String.ofList (dropSlashes slashed.reverse).reverse

/-- A key cut at its last slash: what is before the slash, and the name after it. -/
def cutKey? (key : String) : Option (List Char × List Char) :=
  match Text.cutAt '/' key.toList.reverse with
  | (_, none) => none
  | (name, some before) => some (before.reverse, name.reverse)

/-- The key of the directory above. The root has none, nor has a key without slash. -/
def dirKey? (key : String) : Option String :=
  if key = "/" then none
  else
    match cutKey? key with
    | none => none
    | some ([], _) => some "/"
    | some (before, _) => some (String.ofList before)

/-- The keys of all directories above: what is before each slash of the key. The characters
`before` are those in front of the rest of the key, backwards. -/
def keysAbove (before : List Char) : List Char → List String
  | [] => []
  | c :: cs =>
    if c = '/' then
      (if before.isEmpty then "/" else String.ofList before.reverse) :: keysAbove (c :: before) cs
    else keysAbove (c :: before) cs

/-- What is left of a text after a text that it starts with. -/
def rest? : List Char → List Char → Option (List Char)
  | [], cs => some cs
  | _ :: _, [] => none
  | p :: ps, c :: cs => if p = c then rest? ps cs else none

/-- What the keys of all that is below the directory `dir` start with. -/
def childFront (dir : String) : List Char :=
  if dir = "/" then ['/'] else dir.toList ++ ['/']

/-- The name under which `key` is directly inside the directory `dir`. -/
def childName? (dir key : String) : Option String :=
  match rest? (childFront dir) key.toList with
  | none | some [] => none
  | some name => if '/' ∈ name then none else some (String.ofList name)

/-! ## 2. Trees -/

/-- An object of the file system. -/
inductive Entry where
  | file (content : ByteArray)
  | dir

/-- All objects of a file system in memory. -/
structure Tree where
  entries : Dictionary Entry

namespace Tree

/-- The tree with nothing but its root. -/
def new : Tree :=
  ⟨Dictionary.empty.insert "/" .dir⟩

instance : Inhabited Tree := ⟨new⟩

def entry? (t : Tree) (p : Path) : Option Entry :=
  t.entries.get? p.key

/-- The tree with directories put in wherever one is missing above `key`. -/
def withDirsAbove (t : Tree) (key : String) : Tree :=
  ⟨(keysAbove [] key.toList).foldl (fun d k => d.insertNew k .dir) t.entries⟩

/-- The tree with one file more, and the directories above it. -/
def addFile (t : Tree) (file : Path × ByteArray) : Tree :=
  ⟨(t.withDirsAbove file.1.key).entries.insert file.1.key (.file file.2)⟩

/-- A tree of these files. -/
def ofFiles (files : List (Path × ByteArray)) : Tree :=
  files.foldl addFile new

def isFile (t : Tree) (p : Path) : Bool :=
  match t.entry? p with
  | some (.file _) => true
  | _ => false

def isDir (t : Tree) (p : Path) : Bool :=
  match t.entry? p with
  | some .dir => true
  | _ => false

def present (t : Tree) (p : Path) : Bool :=
  (t.entry? p).isSome

def read (t : Tree) (p : Path) : Except FileError ByteArray :=
  match t.entry? p with
  | some (.file content) => .ok content
  | some .dir => .error (.invalidPath p.key "is a directory")
  | none => .error (.notFound p.key)

/-- The last name of a key; the root, and a key without slash, goes by the name of the root. -/
def lastName (key : String) : String :=
  if key.length ≤ 1 then "/"
  else
    match cutKey? key with
    | some (_, name) => String.ofList name
    | none => "/"

/-- What is known about an object. A tree keeps no times, and its directories have no size. -/
def stat (t : Tree) (p : Path) : Except FileError Stat :=
  match t.entry? p with
  | some (.file content) => .ok ⟨lastName p.key, content.size, none, false⟩
  | some .dir => .ok ⟨lastName p.key, 0, none, true⟩
  | none => .error (.notFound p.key)

/-- The keys of all that is below the directory `dir`. Keys rise, so the walk begins at the first
one that is not less than what they start with, and ends before the first that does not start
with it. -/
def keysBelow (t : Tree) (dir : String) : List String :=
  (t.entries.keys.dropWhile (· < String.ofList (childFront dir))).takeWhile fun key =>
    (childFront dir).isPrefixOf key.toList

/-- The names directly inside the directory with this key. They come in the order of their keys,
which is their own. -/
def names (t : Tree) (key : String) : List String :=
  (t.keysBelow key).filterMap (childName? key)

def list (t : Tree) (p : Path) : Except FileError (List String) :=
  match t.entry? p with
  | some .dir => .ok (t.names p.key)
  | some (.file _) => .error (.invalidPath p.key "not a directory")
  | none => .error (.notFound p.key)

/-- The complaint about a key whose directory is missing. -/
def missingDir? (t : Tree) (key : String) : Option FileError :=
  match dirKey? key with
  | none => none
  | some dir =>
    match t.entries.get? dir with
    | some .dir => none
    | _ => some (.notFound dir)

def write (t : Tree) (p : Path) (content : ByteArray) : Except FileError Tree :=
  match t.missingDir? p.key with
  | some e => .error e
  | none =>
    if t.isDir p then .error (.invalidPath p.key "is a directory")
    else .ok ⟨t.entries.insert p.key (.file content)⟩

def makeDir (t : Tree) (p : Path) : Except FileError Tree :=
  if t.present p then .error (.alreadyExists p.key)
  else
    match t.missingDir? p.key with
    | some e => .error e
    | none => .ok ⟨t.entries.insert p.key .dir⟩

/-- Makes a directory and all that are missing above it. A directory that is there is left
as it is. -/
def makeDirs (t : Tree) (p : Path) : Except FileError Tree :=
  if t.isFile p then .error (.alreadyExists p.key)
  else .ok ⟨(t.withDirsAbove p.key).entries.insertNew p.key .dir⟩

/-- Moves a file. Directories are not moved, and not overwritten. -/
def rename (t : Tree) (source target : Path) : Except FileError Tree :=
  match t.missingDir? target.key with
  | some e => .error e
  | none =>
    match t.entry? source with
    | none => .error (.notFound source.key)
    | some .dir => .error (.invalidPath source.key "directory rename is not supported")
    | some (.file content) =>
      if t.isDir target then .error (.invalidPath target.key "is a directory")
      else .ok ⟨(t.entries.erase source.key).insert target.key (.file content)⟩

/-- Takes a change over, or leaves the tree alone where it was refused. -/
def change (f : Tree → Except FileError Tree) : StateM Tree (Except FileError Unit) :=
  fun t =>
    match f t with
    | .ok t' => (.ok (), t')
    | .error e => (.error e, t)

instance : FileSystem (StateM Tree) where
  read p := fun t => (t.read p, t)
  write p content := change (·.write p content)
  present p := fun t => (t.present p, t)
  isFile p := fun t => (t.isFile p, t)
  isDir p := fun t => (t.isDir p, t)
  stat p := fun t => (t.stat p, t)
  list p := fun t => (t.list p, t)
  makeDir p := change (·.makeDir p)
  rename source target := change (·.rename source target)

end Tree

end ShowTree
