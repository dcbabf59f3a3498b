/-
The command: what it does for its arguments, what it prints, and the status it ends with.
-/
import ResourceClient.Artifact.Write
import ResourceClient.CommandLine.Arguments
import ResourceClient.CommandLine.Summary
import ResourceClient.Config.Load

namespace ResourceClient.CommandLine

/-- What stops the command after its arguments are read. -/
inductive CommandError
  | config (error : ConfigError)
  | run (error : RunError)
  deriving DecidableEq, Repr

def CommandError.message : CommandError → String
  | .config error => error.message
  | .run error => error.message

/-- How the command ends: what it has printed, and the status. -/
inductive Ending
  | usage (error : UsageError)
  | stopped (error : CommandError)
  | finished (stdout stderr : String) (status : Nat)
  deriving DecidableEq, Repr

def versionText : String :=
  "taffy-gen 0.1.0\n"

def helpText : String :=
  "Usage: taffy-gen [OPTIONS] <SRC_DIR> <OUT_DIR> [SERVICE_NAME]\n"

/-- The generated files as a dry run prints them, each under a line with its name. -/
def printedArtifacts (c : Config) (a : Artifacts) : String :=
  "// ==> " ++ c.interfacesFile ++ " <==\n" ++ a.interfaces ++ "\n" ++
    "// ==> " ++ c.clientFile ++ " <==\n" ++ a.client

/-- The report as it is printed. -/
def printedReport (o : Options) (r : Report) : String :=
  if o.json then reportJson r ++ "\n" else String.join ((summaryLines r o.dryRun).map (· ++ "\n"))

/-- The ending of a run that was not stopped. A strict run has the status of its failures. -/
def Ending.ofOutput (o : Options) (c : Config) (g : GenerationOutput) : Ending :=
  .finished (if o.dryRun then printedArtifacts c g.artifacts else "") (printedReport o g.report)
    (if o.strict && g.report.hasFailures then 1 else 0)

section

variable {m : Type → Type} [Monad m] [FileStore m]

/-- The configuration in a file. -/
def loadConfig (path : String) : m (Except ConfigError Config) := do
  match ← readText path with
  | .error cause => return .error (.unreadable path cause)
  | .ok document => return Config.ofToml document

/-- The configuration of a run: from its file, if it names one, and then from its other arguments. -/
def configOf (serviceName : Option String) (o : Options) : m (Except ConfigError Config) := do
  let base ← match o.config with
    | some path => loadConfig path
    | none => pure (.ok {})
  return base.map fun c => (c.withServiceName serviceName).withExcluded o.exclude

/-- Runs the command. -/
def execute (args : List String) : m Ending := do
  match parseArguments args with
  | .error e => return .usage e
  | .ok .version => return .finished versionText "" 0
  | .ok .help => return .finished helpText "" 0
  | .ok (.generate source target serviceName o) =>
    match ← configOf serviceName o with
    | .error e => return .stopped (.config e)
    | .ok c =>
      match ← generate c source target o.dryRun with
      | .error e => return .stopped (.run e)
      | .ok g => return .ofOutput o c g

end

end ResourceClient.CommandLine
