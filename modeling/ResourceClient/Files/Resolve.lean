/-
Finding the place a path names. The path is walked from the root of a tree, which stands for the folder
that relative paths start in; links on the way are followed, and one at the end is when that is asked.
-/
import ResourceClient.Files.Error
import ResourceClient.Files.Tree
import ResourceClient.Path

namespace ResourceClient.FileTree

/-- Where a path leads: to something, or to a free name in an existing folder, which may be marked by a
slash as one for a folder. -/
inductive Place
  | taken (names : List String) (content : FileTree)
  | free (names : List String) (slash : Bool)

/-- The most links followed on one path. -/
def linkLimit : Nat := 40

/-- The names between the slashes of a path. -/
def steps (path : String) : List String :=
  (Path.segments path).map String.ofList

/-- Walks on from a folder, with `links` links left to follow. -/
def walk (t : FileTree) (followLast : Bool) (links : Nat) (here : List String) :
    List String → Except FileError Place
  | [] => match t.at? here with
    | some u => .ok (.taken here u)
    | none => .error .missing
  | name :: rest =>
    if name = "" ∨ name = "." then walk t followLast links here rest
    else if name = ".." then walk t followLast links here.dropLast rest
    else
      match t.at? (here ++ [name]) with
      | none => if rest.all (· == "") then .ok (.free (here ++ [name]) (!rest.isEmpty)) else .error .missing
      | some (.folder _) => walk t followLast links (here ++ [name]) rest
      | some (.file content) =>
        if rest.isEmpty then .ok (.taken (here ++ [name]) (.file content)) else .error .notFolder
      | some (.link target) =>
        if rest.isEmpty && !followLast then .ok (.taken (here ++ [name]) (.link target))
        else
          match links with
          | 0 => .error .tooManyLinks
          | n + 1 => walk t followLast n (if Path.isAbsolute target then [] else here) (steps target ++ rest)
termination_by names => (links, names.length)

/-- The place of a path. No place has the empty path. -/
def place (t : FileTree) (followLast : Bool) (path : String) : Except FileError Place :=
  if path = "" then .error .missing else walk t followLast linkLimit [] (steps path)

end ResourceClient.FileTree
