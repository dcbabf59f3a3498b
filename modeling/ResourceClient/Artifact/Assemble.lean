/-
The two generated files. The interfaces file holds the types, the client file a class with a member for
each endpoint and the functions these are made with.
-/
import ResourceClient.Config.Basic
import ResourceClient.Generation.Output
import ResourceClient.TypeScript.Shared

namespace ResourceClient

open Text TypeScript

/-- The texts of the generated files. -/
structure Artifacts where
  interfaces : String
  client : String
  deriving DecidableEq, Repr

namespace Artifacts

/-- The first line of every generated file. -/
def header : String :=
  "// This code was automatically generated by taffy-gen. Do not edit manually."

/-- A text that ends its last line. -/
def endLine (s : String) : String :=
  if s.toList.getLast? = some '\n' then s else s ++ "\n"

/-- The interfaces file. -/
def interfacesText (outputs : List EndpointOutput) : String :=
  endLine ("\n".intercalate
    ([header, transportDeclaration, resourceTypes] ++ (outputs.map (·.declaration)).filter (· != "")))

/-- The client file before its members. -/
def clientHead (serviceName interfacesModule : String) : String :=
  header ++ "\n\nimport * as Interfaces from " ++ Quoted.encode interfacesModule ++ ";\n\nexport class " ++
    serviceName ++ "<TResult> \x7b\n"

/-- The fields of the class, and the blank line after them. -/
def fieldLines (outputs : List EndpointOutput) : String :=
  String.join (outputs.map fun o => "    " ++ o.field ++ "\n") ++ if outputs.isEmpty then "" else "\n"

def constructorLine : String :=
  "    constructor(protected readonly transport: Interfaces.TaffyHttpClientProvider<TResult>) \x7b\n"

/-- The lines of the constructor that set the fields. -/
def registrationLines (outputs : List EndpointOutput) : String :=
  String.join (outputs.map fun o => "        " ++ o.registration ++ "\n")

/-- The client file after its members. -/
def clientTail : String :=
  "    \x7d\n\x7d\n\n" ++ sharedFunctions

/-- The client file. -/
def clientText (serviceName interfacesModule : String) (outputs : List EndpointOutput) : String :=
  let routable := outputs.filter fun o => !o.isEmpty
  clientHead serviceName interfacesModule ++ fieldLines routable ++ constructorLine ++
    registrationLines routable ++ clientTail

/-- Both files for the outputs of a run. -/
def assemble (c : Config) (serviceName : String) (outputs : List EndpointOutput) : Artifacts :=
  ⟨interfacesText outputs, clientText serviceName c.interfacesModule outputs⟩

end Artifacts

end ResourceClient
