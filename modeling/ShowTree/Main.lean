/-
ShowTree.Main — the program on the disk of the computer.

Everything that is decided is decided in `ShowTree.CommandLine.Run`; here the calls of a
session become those of the operating system, and the outcome of the run is printed.
-/
import ShowTree.CommandLine.Run

namespace ShowTree

/-- The number and the wording of an error of the operating system. -/
def systemError? : IO.Error → Option (UInt32 × String)
  | .alreadyExists _ n text => some (n, text)
  | .otherError n text => some (n, text)
  | .resourceBusy n text => some (n, text)
  | .resourceVanished n text => some (n, text)
  | .unsupportedOperation n text => some (n, text)
  | .hardwareFault n text => some (n, text)
  | .unsatisfiedConstraints n text => some (n, text)
  | .illegalOperation n text => some (n, text)
  | .protocolError n text => some (n, text)
  | .timeExpired n text => some (n, text)
  | .interrupted _ n text => some (n, text)
  | .noFileOrDirectory _ n text => some (n, text)
  | .invalidArgument _ n text => some (n, text)
  | .permissionDenied _ n text => some (n, text)
  | .resourceExhausted _ n text => some (n, text)
  | .inappropriateType _ n text => some (n, text)
  | .noSuchThing _ n text => some (n, text)
  | .unexpectedEof | .userError _ => none

/-- The number of an error as a small number. Some calls count errors downward from zero. -/
def errorNumber (n : UInt32) : Nat :=
  if n < 0x80000000 then n.toNat else (0 - n).toNat

/-- The error of a call for `p`. -/
def FileError.ofError (p : Path) (e : IO.Error) : FileError :=
  match systemError? e with
  | none => .io (toString e)
  | some (n, text) =>
    match SystemError.ofNumber? (errorNumber n) with
    | some known => .ofSystemError p known
    | none => .io (SystemError.numbered text (errorNumber n))

/-- The answer of the operating system to a call for `p`. -/
def callSystem {α : Type} (p : Path) (act : IO α) : IO (Except FileError α) :=
  if '\x00' ∈ p.text.toList then pure (.error (.ofSystemError p .zeroCharacter))
  else
    try
      pure (.ok (← act))
    catch e =>
      pure (.error (.ofError p e))

/-- What the operating system knows of the object at `p`. -/
def askSystem (p : Path) : IO (Except FileError IO.FS.Metadata) :=
  callSystem p do ((← IO.currentDir) / p.text).metadata

/-- A moment as the operating system tells it. -/
def Instant.ofSystemTime (t : IO.FS.SystemTime) : Instant :=
  ⟨t.sec * 1000000000 + t.nsec.toNat⟩

instance : FileSystem IO where
  read p := callSystem p (IO.FS.readBinFile p.text)
  write p content := callSystem p (IO.FS.writeBinFile p.text content)
  present p := do
    return (← askSystem p).isOk
  isFile p := do
    return match ← askSystem p with
      | .ok known => known.type == .file
      | .error _ => false
  isDir p := do
    return match ← askSystem p with
      | .ok known => known.type == .dir
      | .error _ => false
  stat p := do
    return (← askSystem p).map fun known =>
      ⟨(p.fileName?.map Name.text).getD "/", known.byteSize.toNat,
        some (.ofSystemTime known.modified), known.type == .dir⟩
  list p := callSystem p do
    let entries ← ((← IO.currentDir) / p.text).readDir
    return (entries.toList.map (·.fileName)).mergeSort fun a b => decide (a ≤ b)
  makeDir p := callSystem p (IO.FS.createDir p.text)
  rename source target := callSystem source (IO.FS.rename source.text target.text)

end ShowTree

/-- Runs the program in the working directory and prints what came of it. -/
def main (args : List String) : IO UInt32 := do
  let o ← try
      let workingDir ← IO.currentDir
      ShowTree.CommandLine.run ⟨workingDir.toString⟩ args
    catch e =>
      pure (.complaint 1 ("cannot read current directory: " ++ toString e))
  IO.print o.out
  IO.eprint o.err
  return o.exit
