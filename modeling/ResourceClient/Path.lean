/-
Paths as texts: segments between slashes, of which empty ones and single dots say nothing, except a dot
at the very start.
-/
namespace ResourceClient.Path

/-- The texts between the slashes of a path. -/
def segments (path : String) : List (List Char) :=
  path.toList.splitOn '/'

/-- A segment that leads nowhere. -/
def isIdle (segment : List Char) : Bool :=
  segment == [] || segment == ['.']

/-- The segments without the idle ones at their end. -/
def dropIdleEnd (segments : List (List Char)) : List (List Char) :=
  (segments.reverse.dropWhile isIdle).reverse

def isAbsolute (path : String) : Bool :=
  path.toList.head? == some '/'

/-- The last name of a path; a path that ends by going up, or has no name at all, has none. -/
def fileName? (path : String) : Option String :=
  match ((segments path).filter fun s => !isIdle s).getLast? with
  | none => none
  | some name => if name = ['.', '.'] then none else some (String.ofList name)

/-- A name cut at its last dot, unless there is none or it leads. -/
def cutExtension (name : String) : String × Option String :=
  let cs := name.toList
  let extension := (cs.reverse.takeWhile (· != '.')).reverse
  let stem := (cs.reverse.dropWhile (· != '.')).drop 1
  if stem.isEmpty then (name, none) else (String.ofList stem.reverse, some (String.ofList extension))

/-- The file name without its extension. -/
def stem? (path : String) : Option String :=
  (fileName? path).map fun name => (cutExtension name).1

/-- What follows the last dot of the file name. -/
def extension? (path : String) : Option String :=
  (fileName? path).bind fun name => (cutExtension name).2

/-- A path below another; an absolute path stays itself. -/
def join (path more : String) : String :=
  if isAbsolute more then more
  else if path = "" || path.toList.getLast? = some '/' then path ++ more
  else path ++ "/" ++ more

/-- A path from segments. -/
def ofSegments (segments : List (List Char)) : String :=
  String.ofList (['/'].intercalate segments)

/-- The path one name up. The root has none, nor has the empty path. -/
def parent? (path : String) : Option String :=
  match segments path with
  | [] => none
  | first :: body =>
    if isAbsolute path then
      match dropIdleEnd body with
      | [] => none
      | named => some ("/" ++ ofSegments (dropIdleEnd named.dropLast))
    else if first = ['.'] then
      match dropIdleEnd body with
      | [] => some ""
      | named => some (ofSegments (first :: dropIdleEnd named.dropLast))
    else
      match dropIdleEnd (first :: body) with
      | [] => none
      | named => some (ofSegments (dropIdleEnd named.dropLast))

/-- The path with another file name; a path without one is extended. -/
def withFileName (path name : String) : String :=
  match fileName? path, parent? path with
  | some _, some parent => join parent name
  | _, _ => join path name

/-- The path and all its parents, from the path up. -/
def ancestors (path : String) : List String :=
  go (path.length + 1) path
where
  go : Nat → String → List String
    | 0, _ => []
    | n + 1, path => path :: match parent? path with
      | none => []
      | some parent => go n parent

end ResourceClient.Path
