/-
What the generator asks of a file system, for any kind of effect, and the answer of a tree of files held
as a state.
-/
import ResourceClient.Files.Operations

namespace ResourceClient

/-- A file system, by the operations the generator needs. -/
class FileStore (m : Type → Type) where
  /-- The entries of a folder, in any order. -/
  list : String → m (Except FileError (List Entry))
  /-- The bytes of a file. -/
  read : String → m (Except FileError ByteArray)
  /-- Whether a path leads to a folder. -/
  hasFolder : String → m Bool
  /-- Makes a folder in an existing one. -/
  makeFolder : String → m (Except FileError Unit)
  /-- Gives a file its content. -/
  write : String → ByteArray → m (Except FileError Unit)
  /-- Gives a file a new path. -/
  rename : String → String → m (Except FileError Unit)
  /-- Takes a file away. -/
  remove : String → m (Except FileError Unit)

/-- Computations on a tree of files. -/
abbrev TreeM := StateM FileTree

instance : FileStore TreeM where
  list path t := (t.list path, t)
  read path t := (t.read path, t)
  hasFolder path t := (t.hasFolder path, t)
  makeFolder path t := t.makeFolder path
  write path content t := t.write path content
  rename source target t := t.rename source target
  remove path t := t.remove path

/-- The text of bytes. -/
def decodeText (bytes : ByteArray) : Except FileError String :=
  match String.fromUTF8? bytes with
  | some text => .ok text
  | none => .error .notText

section

variable {m : Type → Type} [Monad m] [FileStore m]

/-- The text of a file. -/
def readText (path : String) : m (Except FileError String) := do
  match ← FileStore.read path with
  | .error e => return .error e
  | .ok bytes => return decodeText bytes

/-- A failure to make a folder is none when the folder is there. -/
def unlessThere (path : String) : Except FileError Unit → m (Except FileError Unit)
  | .ok () => return .ok ()
  | .error e => return if ← FileStore.hasFolder path then .ok () else .error e

/-- Makes the first of a list of folders, each of which is to lie in the next. The next ones are made
only when the first cannot be for want of them. -/
def makeChain : List String → m (Except FileError Unit)
  | [] => return .error (.other "failed to create whole tree")
  | path :: parents =>
    if path = "" then return .ok ()
    else do
      match ← FileStore.makeFolder path with
      | .error .missing =>
        match ← makeChain parents with
        | .ok () => unlessThere path (← FileStore.makeFolder path)
        | .error e => return .error e
      | made => unlessThere path made

/-- Makes a folder and those above it that are missing. -/
def makeFolders (path : String) : m (Except FileError Unit) :=
  makeChain (Path.ancestors path)

end

end ResourceClient
