/-
The operations of a file system on trees. An operation that changes the tree gives the tree that it
leaves, also when it fails.
-/
import ResourceClient.Files.Resolve

namespace ResourceClient

/-- An entry of a listing, and whether it is a regular file. -/
structure Entry where
  name : String
  isFile : Bool
  deriving DecidableEq, Repr

namespace FileTree

/-! ## Reading -/

/-- The bytes of a file. -/
def read (t : FileTree) (path : String) : Except FileError ByteArray :=
  match t.place true path with
  | .error e => .error e
  | .ok (.taken _ (.file content)) => .ok content
  | .ok (.taken _ _) => .error .isFolder
  | .ok (.free _ _) => .error .missing

/-- The entries of a folder; a file has none. -/
def list (t : FileTree) (path : String) : Except FileError (List Entry) :=
  match t.place true path with
  | .error e => .error e
  | .ok (.taken _ (.folder entries)) => .ok (entries.map fun (name, u) => ⟨name, u.isFile⟩)
  | .ok (.taken _ _) => .ok []
  | .ok (.free _ _) => .error .missing

/-- Whether a path leads to a folder. -/
def hasFolder (t : FileTree) (path : String) : Bool :=
  match t.place true path with
  | .ok (.taken _ u) => u.isFolder
  | _ => false

/-! ## Folders -/

/-- Makes a folder in an existing one. -/
def makeFolder (t : FileTree) (path : String) : Except FileError Unit × FileTree :=
  match t.place false path with
  | .error e => (.error e, t)
  | .ok (.taken _ _) => (.error .occupied, t)
  | .ok (.free names _) => (.ok (), put empty names t)

/-! ## Files -/

/-- Gives a file its content, making the file when there is none. -/
def write (t : FileTree) (path : String) (content : ByteArray) : Except FileError Unit × FileTree :=
  match t.place true path with
  | .error e => (.error e, t)
  | .ok (.taken names (.file _)) => (.ok (), put (.file content) names t)
  | .ok (.taken _ _) => (.error .isFolder, t)
  | .ok (.free _ true) => (.error .isFolder, t)
  | .ok (.free names false) => (.ok (), put (.file content) names t)

/-- Takes a file or a link away. -/
def remove (t : FileTree) (path : String) : Except FileError Unit × FileTree :=
  match t.place false path with
  | .error e => (.error e, t)
  | .ok (.taken _ (.folder _)) => (.error .isFolder, t)
  | .ok (.taken names _) => (.ok (), erase names t)
  | .ok (.free _ _) => (.error .missing, t)

/-- Whether a path ends in a name, and not by standing still or going up. -/
def endsInName (path : String) : Bool :=
  match (steps path).reverse.dropWhile (· == "") with
  | [] => false
  | name :: _ => name != "." && name != ".."

/-- Gives a file or a link a new path, in exchange for a file or a link there. -/
def rename (t : FileTree) (source target : String) : Except FileError Unit × FileTree :=
  match t.place false source, t.place false target with
  | .error e, _ => (.error e, t)
  | _, .error e => (.error e, t)
  | .ok (.free _ _), _ => (.error .missing, t)
  | .ok (.taken names u), .ok found =>
    if !endsInName target then (.error .busy, t)
    else if target.toList.getLast? = some '/' then (.error .notFolder, t)
    else
      match found with
      | .taken _ (.folder _) => (.error .isFolder, t)
      | .taken names' _ | .free names' _ => (.ok (), put u names' (erase names t))

/-- Makes a link. -/
def makeLink (t : FileTree) (path target : String) : Except FileError Unit × FileTree :=
  match t.place false path with
  | .error e => (.error e, t)
  | .ok (.taken _ _) => (.error .occupied, t)
  | .ok (.free names _) => (.ok (), put (.link target) names t)

/-- Takes away whatever a path names, with all that lies in it. -/
def removeAll (t : FileTree) (path : String) : Except FileError Unit × FileTree :=
  match t.place false path with
  | .error e => (.error e, t)
  | .ok (.taken names _) => (.ok (), erase names t)
  | .ok (.free _ _) => (.error .missing, t)

/-! ## Everything in a folder -/

/-- A file's content at its path, or a folder's path alone. -/
abbrev Row := String × Option ByteArray

/-- All that lies in a folder of the tree, by paths from that folder. Links are followed, and lead to an
empty file when nothing is behind them; `depth` bounds the folders entered. -/
def rowsOf (t : FileTree) (depth : Nat) (base above : String) (entries : List (String × FileTree)) : List Row :=
  match depth with
  | 0 => []
  | depth + 1 =>
    entries.flatMap fun (name, u) =>
      let path := Path.join above name
      let real := Path.join base name
      let u := match u with
        | .link _ => match t.place true real with
          | .ok (.taken _ u) => u
          | _ => .file .empty
        | u => u
      match u with
      | .file content => [(path, some content)]
      | .link _ => [(path, some .empty)]
      | .folder entries => (path, none) :: t.rowsOf depth real path entries

/-- All that lies in a folder, in the order of the paths. -/
def rows (t : FileTree) (path : String) : List Row :=
  match t.place true path with
  | .ok (.taken _ (.folder entries)) =>
    (t.rowsOf 100 path "" entries).mergeSort fun a b => a.1 ≤ b.1
  | _ => []

end FileTree

end ResourceClient
