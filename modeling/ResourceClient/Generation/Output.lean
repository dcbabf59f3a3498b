/-
What one source contributes to the generated files, from its text: its declaration lines are parsed, its
endpoint is extracted, and the texts for it are rendered.
-/
import ResourceClient.Endpoint.Extract
import ResourceClient.Markup.Forest
import ResourceClient.Source.Declarations
import ResourceClient.TypeScript.Declaration
import ResourceClient.TypeScript.Member

namespace ResourceClient

/-- The texts for one component. A component without a URI has an empty registration, and one without an
interface of its own an empty declaration. -/
structure EndpointOutput where
  name : String
  endpoint : Option Endpoint := none
  declaration : String := ""
  field : String := ""
  registration : String := ""
  deriving DecidableEq, Repr

namespace EndpointOutput

/-- Whether the component adds nothing to the client. -/
def isEmpty (o : EndpointOutput) : Bool :=
  o.registration == ""

/-- The texts for an endpoint. -/
def ofEndpoint (options : TypeScript.EmitOptions) (typed : Bool) (e : Endpoint) : EndpointOutput where
  name := e.name
  endpoint := some e
  declaration := if typed then TypeScript.renderDeclaration options e else ""
  field := TypeScript.renderField e typed
  registration := TypeScript.renderRegistration e

end EndpointOutput

/-- Why a source gives no output. -/
inductive UnitError
  | parse (error : Markup.ParseError)
  | extract (error : ExtractError)
  deriving DecidableEq, Repr

def UnitError.message : UnitError → String
  | .parse error => error.message
  | .extract error => error.message

/-- The output of a source. -/
def generateUnit (options : TypeScript.EmitOptions) (typed : Bool) (name source : String) :
    Except UnitError EndpointOutput :=
  match Markup.parse (Source.declarations source) with
  | .error e => .error (.parse e)
  | .ok forest =>
    match Endpoint.ofForest name forest with
    | .error e => .error (.extract e)
    | .ok none => .ok { name }
    | .ok (some e) => .ok (.ofEndpoint options typed e)

end ResourceClient
