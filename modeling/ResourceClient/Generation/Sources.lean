/-
The sources of a run: the entries of a folder that are components, each with the name of its endpoint.
Of several sources for one endpoint only the first counts.
-/
import ResourceClient.Config.Basic
import ResourceClient.Files.Operations

namespace ResourceClient

/-- A source and the name of its endpoint. -/
structure SourceFile where
  name : String
  path : String
  deriving DecidableEq, Repr

namespace SourceFile

/-- Whether an entry is a source: a file that is not hidden and has a source extension. -/
def isSource (c : Config) (e : Entry) : Bool :=
  e.isFile && e.name.toList.head? != some '.' && c.accepts e.name

/-- The sources among the entries of a folder, in the order of their file names. -/
def ofEntries (c : Config) (folder : String) (entries : List Entry) : List SourceFile :=
  ((entries.mergeSort fun a b => a.name ≤ b.name).filter (isSource c)).map fun e =>
    let path := Path.join folder e.name
    ⟨TypeScript.endpointName path, path⟩

/-- The first source of each name, `seen` being those already found. -/
def distinct (seen : List SourceFile) : List SourceFile → List SourceFile
  | [] => []
  | s :: ss => if seen.any (·.name == s.name) then distinct seen ss else s :: distinct (s :: seen) ss

/-- The sources whose name another has taken, each with the one that has. -/
def duplicates (seen : List SourceFile) : List SourceFile → List (SourceFile × SourceFile)
  | [] => []
  | s :: ss =>
    match seen.find? (·.name == s.name) with
    | some first => (s, first) :: duplicates seen ss
    | none => duplicates (s :: seen) ss

end SourceFile

end ResourceClient
