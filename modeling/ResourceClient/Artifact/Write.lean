/-
Writing generated files. A file is written under a temporary name beside its own and then renamed, so
that no reader finds half of it; a file that cannot be written does not keep the other from it.
-/
import ResourceClient.Artifact.Assemble
import ResourceClient.Generation.Run

namespace ResourceClient

section

variable {m : Type → Type} [Monad m] [FileStore m]

/-- The path of the temporary file for a path. -/
def temporaryPath (path : String) : String :=
  Path.withFileName path ((Path.fileName? path).getD "" ++ ".tmp")

/-- Makes the folder a file is to lie in. -/
def makeParent (path : String) : m (Except WriteError Unit) := do
  match Path.parent? path with
  | none | some "" => return .ok ()
  | some parent => return (← makeFolders parent).mapError (⟨parent, ·⟩)

/-- Writes a file as a whole. The temporary file is taken away when it cannot be renamed. -/
def writeAtomic (path content : String) : m (Except WriteError Unit) := do
  match ← makeParent path with
  | .error e => return .error e
  | .ok () =>
    let temporary := temporaryPath path
    match ← FileStore.write temporary content.toUTF8 with
    | .error cause => return .error ⟨temporary, cause⟩
    | .ok () =>
      match ← FileStore.rename temporary path with
      | .error cause => do
        let _ ← FileStore.remove temporary
        return .error ⟨path, cause⟩
      | .ok () => return .ok ()

/-- Notes in a report how the writing of a file went. -/
def Report.note (r : Report) (path : String) : Except WriteError Unit → Report
  | .ok () => { r with written := r.written ++ [path] }
  | .error e => { r with writeFailures := r.writeFailures ++ [⟨path, .file e⟩] }

/-- Writes both files into a folder. -/
def writeArtifacts (c : Config) (folder : String) (a : Artifacts) (r : Report) : m Report := do
  let interfaces := Path.join folder c.interfacesFile
  let client := Path.join folder c.clientFile
  match ← makeFolders folder with
  | .error cause =>
    return { r with writeFailures := r.writeFailures ++
      [⟨interfaces, .folder cause⟩, ⟨client, .folder cause⟩] }
  | .ok () =>
    let r := r.note interfaces (← writeAtomic interfaces a.interfaces)
    return r.note client (← writeAtomic client a.client)

/-- The files of a run and its report. -/
structure GenerationOutput where
  artifacts : Artifacts
  report : Report
  deriving DecidableEq, Repr

/-- Generates the files for a folder of sources, and writes them unless the run is dry. -/
def generate (c : Config) (source target : String) (dryRun : Bool) :
    m (Except RunError GenerationOutput) := do
  match ← run c source with
  | .error e => return .error e
  | .ok g =>
    let artifacts := Artifacts.assemble c g.report.serviceName g.outputs
    if dryRun then return .ok ⟨artifacts, g.report⟩
    else return .ok ⟨artifacts, ← writeArtifacts c target artifacts g.report⟩

end

end ResourceClient
