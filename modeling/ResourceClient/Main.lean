/-
The program: the command on the file system of the machine.
-/
import ResourceClient.CommandLine.Run

namespace ResourceClient

/-- The number of a system error, which some operations report with its sign changed. -/
def errorNumber (code : UInt32) : Nat :=
  min code.toNat (0 - code).toNat

/-- The cause of a failed operation. -/
def FileError.ofSystem (e : IO.Error) : FileError :=
  match e with
  | .noFileOrDirectory .. => .missing
  | .alreadyExists .. => .occupied
  | .resourceBusy .. => .busy
  | .invalidArgument _ code _ => if errorNumber code = 40 then .tooManyLinks else .other (toString e)
  | .inappropriateType _ code _ =>
    if errorNumber code = 20 then .notFolder
    else if errorNumber code = 21 then .isFolder
    else .other (toString e)
  | e => .other (toString e)

/-- Tells how an action ended. -/
def attempt {α : Type} (action : IO α) : IO (Except FileError α) := do
  match ← action.toBaseIO with
  | .ok a => return .ok a
  | .error e => return .error (.ofSystem e)

/-- Whether a path leads to a folder of the machine. -/
def isFolder (path : String) : IO Bool := do
  let here : IO.FS.DirEntry := ⟨path, ""⟩
  here.root.isDir

/-- The entries of a folder of the machine; a file has none. -/
def listFolder (path : String) : IO (List Entry) := do
  let here : IO.FS.DirEntry := ⟨path, ""⟩
  if (← here.root.metadata).type != .dir then return []
  let entries ← here.root.readDir
  entries.toList.mapM fun e => do
    return ⟨e.fileName, (← e.path.symlinkMetadata).type == .file⟩

/-- The file system of the machine. -/
instance : FileStore IO where
  list path := attempt (listFolder path)
  read path := attempt (IO.FS.readBinFile path)
  hasFolder path := isFolder path
  makeFolder path := attempt (IO.FS.createDir path)
  write path content := attempt (IO.FS.writeBinFile path content)
  rename source target := attempt (IO.FS.rename source target)
  remove path := attempt (IO.FS.removeFile path)

end ResourceClient

open ResourceClient CommandLine

/-- Runs the command, prints what it has to say, and ends with its status. -/
def main (args : List String) : IO UInt32 := do
  match ← (execute args : IO Ending) with
  | .usage e =>
    IO.eprintln ("error: " ++ e.message)
    IO.eprint helpText
    return 2
  | .stopped e =>
    IO.eprintln ("Error: " ++ e.message)
    return 1
  | .finished stdout stderr status =>
    IO.print stdout
    IO.eprint stderr
    return status.toUInt32
