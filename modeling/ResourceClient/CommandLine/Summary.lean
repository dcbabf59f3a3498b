/-
A report as it is printed: line by line for people, or as one line of JSON.
-/
import ResourceClient.Generation.Report
import ResourceClient.Text.Quoted

namespace ResourceClient.CommandLine

open Text

/-! ## For people -/

/-- A line that lists names, when there are any. -/
def namesLine (label : String) (names : List String) : List String :=
  if names.isEmpty then [] else ["  " ++ label ++ ": " ++ ", ".intercalate names]

/-- The lines of a report. -/
def summaryLines (r : Report) (dryRun : Bool) : List String :=
  ["generated " ++ decimal r.endpoints.length ++ " endpoint(s) for " ++ r.serviceName] ++
    namesLine "untyped" r.untyped ++
    namesLine "no URI" r.unroutable ++
    r.failures.map (fun f => "failed " ++ f.endpoint ++ ": " ++ f.error.message) ++
    r.written.map (fun path => "  wrote " ++ path) ++
    r.writeFailures.map (fun f => "not written " ++ f.path ++ ": " ++ f.error.message) ++
    if dryRun then ["  dry run, nothing written"] else []

/-! ## As JSON -/

/-- An array of values already written. -/
def jsonArray (values : List String) : String :=
  "[" ++ ",".intercalate values ++ "]"

/-- An object of values already written. -/
def jsonObject (entries : List (String × String)) : String :=
  "\x7b" ++ ",".intercalate (entries.map fun (key, value) => Quoted.encode key ++ ":" ++ value) ++ "\x7d"

def jsonTexts (values : List String) : String :=
  jsonArray (values.map Quoted.encode)

/-- A report as JSON. -/
def reportJson (r : Report) : String :=
  jsonObject [
    ("service_name", Quoted.encode r.serviceName),
    ("endpoints", jsonTexts r.endpoints),
    ("untyped", jsonTexts r.untyped),
    ("unroutable", jsonTexts r.unroutable),
    ("failures", jsonArray (r.failures.map fun f => jsonObject [
      ("endpoint", Quoted.encode f.endpoint),
      ("path", Quoted.encode f.path),
      ("error", Quoted.encode f.error.message)])),
    ("written", jsonTexts r.written),
    ("write_failures", jsonArray (r.writeFailures.map fun f => jsonObject [
      ("path", Quoted.encode f.path),
      ("error", Quoted.encode f.error.message)]))]

end ResourceClient.CommandLine
