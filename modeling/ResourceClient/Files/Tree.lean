/-
Trees of files as values: folders of named entries, files with their bytes, and symbolic links. Reading
and writing one place of a tree is a recursion on the names that lead to it.
-/
namespace ResourceClient

/-- A file, a link, or a folder with its entries in the order of their names. -/
inductive FileTree
  | file (content : ByteArray)
  | link (target : String)
  | folder (entries : List (String × FileTree))

namespace FileTree

def empty : FileTree :=
  .folder []

instance : Inhabited FileTree := ⟨empty⟩

def isFile : FileTree → Bool
  | .file _ => true
  | _ => false

def isFolder : FileTree → Bool
  | .folder _ => true
  | _ => false

/-- What stands at the end of a chain of names; links are not followed. -/
def at? : FileTree → List String → Option FileTree
  | t, [] => some t
  | .folder entries, name :: names => (entries.lookup name).bind fun t => t.at? names
  | _, _ :: _ => none

/-- Puts an entry into its place in a folder, in exchange for one of the same name. -/
def putEntry (name : String) (t : FileTree) : List (String × FileTree) → List (String × FileTree)
  | [] => [(name, t)]
  | (k, u) :: entries =>
    if name < k then (name, t) :: (k, u) :: entries
    else if name = k then (name, t) :: entries
    else (k, u) :: putEntry name t entries

/-- Puts `new` at the end of a chain of names; all but the last have to lead through folders. -/
def put (new : FileTree) : List String → FileTree → FileTree
  | [], _ => new
  | name :: names, .folder entries =>
    match names, entries.lookup name with
    | [], _ => .folder (putEntry name new entries)
    | _ :: _, some t => .folder (putEntry name (put new names t) entries)
    | _ :: _, none => .folder entries
  | _ :: _, t => t

/-- Takes away what stands at the end of a chain of names. -/
def erase : List String → FileTree → FileTree
  | [], t => t
  | [name], .folder entries => .folder (entries.filter (·.1 != name))
  | name :: names, .folder entries =>
    match entries.lookup name with
    | some t => .folder (putEntry name (erase names t) entries)
    | none => .folder entries
  | _ :: _, t => t

end FileTree

end ResourceClient
