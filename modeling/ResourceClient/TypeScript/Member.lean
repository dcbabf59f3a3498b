/-
The members of the client class that an endpoint contributes: a field, and the line of the constructor
that sets it.
-/
import ResourceClient.Endpoint.Basic
import ResourceClient.Text.Quoted
import ResourceClient.Uri.Template

namespace ResourceClient.TypeScript

open Text

/-- The line that makes the endpoint's resource from its clean template. -/
def renderRegistration (e : Endpoint) : String :=
  "this." ++ e.name ++ " = create<TResult>(transport, " ++ Quoted.encode (Template.clean e.uriTemplate) ++ ");"

/-- The field of an endpoint, of its own interface or of the one common to all. -/
def renderField (e : Endpoint) (typed : Bool) : String :=
  "readonly " ++ e.name ++ ": Interfaces." ++ (if typed then e.name else "TaffyResourceFactory") ++ "<TResult>;"

end ResourceClient.TypeScript
