/-
A run over a folder of sources. Each source is read and generated by itself, and its outcome alone
decides where the report names it.
-/
import ResourceClient.Files.Store
import ResourceClient.Generation.Report
import ResourceClient.Generation.Sources

namespace ResourceClient

/-- The outputs of a run and its report. -/
structure Generation where
  outputs : List EndpointOutput
  report : Report
  deriving DecidableEq, Repr

namespace Generation

/-- The outcome of one source. -/
abbrev Outcome := Except SourceError EndpointOutput

/-- The outcome of a source, from its text or the failure to read it. -/
def outcome (c : Config) (s : SourceFile) : Except FileError String → Outcome
  | .error cause => .error (.unreadable s.path cause)
  | .ok text =>
    (generateUnit c.emitOptions (!c.isExcluded s.name) s.name text).mapError .failed

/-- The output of a source that has a part in the client. -/
def routable? : SourceFile × Outcome → Option EndpointOutput
  | (_, .ok o) => if o.isEmpty then none else some o
  | (_, .error _) => none

/-- The name of a component without a URI. -/
def unroutable? : SourceFile × Outcome → Option String
  | (_, .ok o) => if o.isEmpty then some o.name else none
  | (_, .error _) => none

def failure? : SourceFile × Outcome → Option FileFailure
  | (_, .ok _) => none
  | (s, .error e) => some ⟨s.name, s.path, e⟩

/-- The failure of a source whose endpoint another source has taken. -/
def duplicateFailure : SourceFile × SourceFile → FileFailure
  | (s, first) => ⟨s.name, s.path, .duplicate s.path s.name first.path⟩

/-- Gathers the outcomes of the sources that count, after the duplicates. -/
def ofOutcomes (serviceName : String) (duplicates : List (SourceFile × SourceFile))
    (outcomes : List (SourceFile × Outcome)) : Generation where
  outputs := outcomes.filterMap routable?
  report := {
    serviceName
    endpoints := (outcomes.filterMap routable?).map (·.name)
    untyped := ((outcomes.filterMap routable?).filter (·.declaration == "")).map (·.name)
    unroutable := outcomes.filterMap unroutable?
    failures := duplicates.map duplicateFailure ++ outcomes.filterMap failure? }

end Generation

section

variable {m : Type → Type} [Monad m] [FileStore m]

/-- The sources in a folder. -/
def listSources (c : Config) (folder : String) : m (Except RunError (List SourceFile)) := do
  match ← FileStore.list folder with
  | .error cause => return .error (.listing folder cause)
  | .ok entries => return .ok (SourceFile.ofEntries c folder entries)

/-- Generates every source in a folder. -/
def run (c : Config) (folder : String) : m (Except RunError Generation) := do
  match c.validate with
  | .error e => return .error (.config e)
  | .ok serviceName =>
    match ← listSources c folder with
    | .error e => return .error e
    | .ok sources =>
      let outcomes ← (SourceFile.distinct [] sources).mapM fun s => do
        return (s, Generation.outcome c s (← readText s.path))
      return .ok (.ofOutcomes serviceName (SourceFile.duplicates [] sources) outcomes)

end

end ResourceClient
