/-
What the choices of a configuration change in a run. What the sources have to say, their endpoints, the components
without a URI and the failures, does not depend on the endpoints that are excluded or on the fields of patches. A
run is made from this outline, and the choices enter in the output of each endpoint only.
-/
import ResourceClient.Proofs.Artifact.Lines
import ResourceClient.Proofs.TypeScript.Marks

namespace ResourceClient

open Generation Artifacts TypeScript

/-! ## The outline of a run -/

/-- The endpoint in the text of a source, if there is one. -/
def endpointIn (name source : String) : Except UnitError (Option Endpoint) :=
  match Markup.parse (Source.declarations source) with
  | .error e => .error (.parse e)
  | .ok forest => (Endpoint.ofForest name forest).mapError .extract

/-- The output of a source, from its endpoint. -/
def EndpointOutput.ofEndpoint? (options : EmitOptions) (typed : Bool) (name : String) :
    Option Endpoint → EndpointOutput
  | none => { name }
  | some e => .ofEndpoint options typed e

/-- Generating is finding the endpoint, and then rendering it. -/
theorem generateUnit_eq (options : EmitOptions) (typed : Bool) (name source : String) :
    generateUnit options typed name source =
      (endpointIn name source).map (EndpointOutput.ofEndpoint? options typed name) := by
  unfold generateUnit endpointIn
  cases Markup.parse (Source.declarations source) with
  | error e => rfl
  | ok forest =>
    simp only
    cases Endpoint.ofForest name forest with
    | error e => rfl
    | ok found => cases found <;> rfl

/-- What a source has, from the contents of the files. -/
def endpointAt (content : String → Except FileError ByteArray) (s : SourceFile) :
    Except SourceError (Option Endpoint) :=
  match textOf (content s.path) with
  | .error cause => .error (.unreadable s.path cause)
  | .ok text => (endpointIn s.name text).mapError .failed

/-- What the sources of a run have. -/
structure Outline where
  endpoints : List Endpoint
  unroutable : List String
  failures : List FileFailure

def routed? (content : String → Except FileError ByteArray) (s : SourceFile) : Option Endpoint :=
  match endpointAt content s with
  | .ok found => found
  | .error _ => none

def unrouted? (content : String → Except FileError ByteArray) (s : SourceFile) : Option String :=
  match endpointAt content s with
  | .ok none => some s.name
  | _ => none

def broken? (content : String → Except FileError ByteArray) (s : SourceFile) : Option FileFailure :=
  match endpointAt content s with
  | .ok _ => none
  | .error e => some ⟨s.name, s.path, e⟩

/-- The outline of a run over some sources. -/
def Outline.ofSources (content : String → Except FileError ByteArray) (sources : List SourceFile) : Outline where
  endpoints := (SourceFile.distinct [] sources).filterMap (routed? content)
  unroutable := (SourceFile.distinct [] sources).filterMap (unrouted? content)
  failures := (SourceFile.duplicates [] sources).map duplicateFailure ++
    (SourceFile.distinct [] sources).filterMap (broken? content)

section

variable {c : Config} {content : String → Except FileError ByteArray} {s : SourceFile} {sources : List SourceFile}

end

/-! ## The files of an outline -/

section

variable (k : Outline) (c : Config) (serviceName : String)

/-- The lines of the endpoints in the constructor, for any choices. -/
def Outline.registrations : String :=
  String.join (k.endpoints.map fun e => "        " ++ renderRegistration e ++ "\n")

end

/-! ## Exclusion -/

end ResourceClient
