/-
The report of a run: what became of each source and of each generated file.
-/
import ResourceClient.Config.Basic
import ResourceClient.Generation.Output

namespace ResourceClient

/-- Why a source has no part in the generated files. -/
inductive SourceError
  | unreadable (path : String) (cause : FileError)
  | duplicate (path endpoint first : String)
  | failed (error : UnitError)
  deriving DecidableEq, Repr

def SourceError.message : SourceError → String
  | .unreadable path cause => "failed to read `" ++ path ++ "`: " ++ cause.message
  | .duplicate path endpoint first =>
    "`" ++ path ++ "` maps to endpoint `" ++ endpoint ++ "`, already taken by `" ++ first ++ "`"
  | .failed error => error.message

/-- A source that failed. -/
structure FileFailure where
  endpoint : String
  path : String
  error : SourceError
  deriving DecidableEq, Repr

/-- A step of writing a file that failed, with the path of that step. -/
structure WriteError where
  path : String
  cause : FileError
  deriving DecidableEq, Repr

def WriteError.message (e : WriteError) : String :=
  "failed to write output file `" ++ e.path ++ "`: " ++ e.cause.message

/-- Why a generated file is not written: there is no folder for it, or it cannot be written there. -/
inductive WriteFault
  | folder (cause : FileError)
  | file (error : WriteError)
  deriving DecidableEq, Repr

def WriteFault.message : WriteFault → String
  | .folder cause => cause.message
  | .file error => error.message

/-- A generated file that is not written. -/
structure WriteFailure where
  path : String
  error : WriteFault
  deriving DecidableEq, Repr

/-- What a run did. -/
structure Report where
  serviceName : String := ""
  /-- The endpoints of the client, in the order of the client. -/
  endpoints : List String := []
  /-- Those of them without an interface of their own. -/
  untyped : List String := []
  /-- The components without a URI. -/
  unroutable : List String := []
  failures : List FileFailure := []
  written : List String := []
  writeFailures : List WriteFailure := []
  deriving DecidableEq, Repr

def Report.hasFailures (r : Report) : Bool :=
  !r.failures.isEmpty || !r.writeFailures.isEmpty

/-- What stops a run before any source is read. -/
inductive RunError
  | config (error : ConfigError)
  | listing (path : String) (cause : FileError)
  deriving DecidableEq, Repr

def RunError.message : RunError → String
  | .config error => error.message
  | .listing path cause =>
    "failed to list `" ++ path ++ "`: IO error for operation on " ++ path ++ ": " ++ cause.message

end ResourceClient
