/-
The interface of an endpoint. Called with one argument for each path parameter it gives an object with
one method for each verb of its operations; a method takes the data that the path does not supply.
-/
import ResourceClient.Endpoint.Basic
import ResourceClient.Text.Digits
import ResourceClient.TypeScript.Identifier

namespace ResourceClient.TypeScript

/-- The choices of a run that declarations depend on. -/
structure EmitOptions where
  /-- Whether no field of a patch is required, whatever its argument says. -/
  patchFieldsOptional : Bool := true
  deriving DecidableEq, Repr

/-- A field of the data of a method. -/
structure Field where
  name : String
  optional : Bool
  type : String
  deriving DecidableEq, Repr

structure Method where
  name : String
  fields : List Field
  deriving DecidableEq, Repr

/-- The interface of one endpoint. -/
structure Declaration where
  name : String
  parameters : List String
  methods : List Method
  deriving DecidableEq, Repr

/-! ## Call parameters -/

/-- The least ordinal from two on that makes of `base` a name not taken. -/
def ordinal (base : String) (taken : List String) : Nat :=
  ((List.range (taken.length + 1)).find? fun i => !taken.contains (base ++ Text.decimal (i + 2))).getD 0 + 2

/-- Tells repeated names apart by ordinals. The first of a name keeps it; `taken` are all names and
`emitted` those given so far. -/
def distinguish (taken emitted : List String) : List String → List String
  | [] => []
  | base :: more =>
    if emitted.contains base then
      let name := base ++ Text.decimal (ordinal base taken)
      name :: distinguish (name :: taken) (name :: emitted) more
    else base :: distinguish taken (base :: emitted) more

/-- The names of the call parameters for a list of path parameters. -/
def callParameters (parameters : List String) : List String :=
  distinguish (parameters.map sanitize) [] (parameters.map sanitize)

/-! ## Methods -/

/-- The field for an argument. -/
def Field.ofArgument (forceOptional : Bool) (a : Argument) : Field :=
  ⟨a.name, forceOptional || !a.isRequired, a.type.typescript⟩

/-- The method for an operation, if the transport has its verb. -/
def Method.ofOperation? (options : EmitOptions) (o : Operation) : Option Method :=
  o.verb?.map fun v =>
    ⟨o.methodName, o.dataArguments.map (.ofArgument (options.patchFieldsOptional && v == .patch))⟩

/-- The first method of each name. -/
def firstOfName (seen : List String) : List Method → List Method
  | [] => []
  | m :: ms => if seen.contains m.name then firstOfName seen ms else m :: firstOfName (m.name :: seen) ms

/-- The interface of an endpoint. -/
def Declaration.ofEndpoint (options : EmitOptions) (e : Endpoint) : Declaration :=
  ⟨e.name, callParameters e.pathParameters,
    firstOfName [] (e.operations.filterMap (Method.ofOperation? options))⟩

/-! ## The text -/

def Field.render (f : Field) : String :=
  propertyName f.name ++ (if f.optional then "?" else "") ++ ": " ++ f.type

/-- The type of the data of a method. -/
def Method.dataType (m : Method) : String :=
  if m.fields.isEmpty then "\x7b\x7d"
  else "\x7b " ++ "; ".intercalate (m.fields.map Field.render) ++ " \x7d"

def Method.render (m : Method) : String :=
  "        " ++ m.name ++ ": (data?: " ++ m.dataType ++ ", options?: any) => TResult;\n"

def Declaration.render (d : Declaration) : String :=
  "export interface " ++ d.name ++ "<TResult> \x7b\n" ++
    "    (" ++ ", ".intercalate (d.parameters.map (· ++ ": string | number")) ++ "): \x7b\n" ++
    String.join (d.methods.map Method.render) ++
    "        url: string;\n" ++
    "    \x7d;\n" ++
    "\x7d\n"

/-- The text of the interface of an endpoint. -/
def renderDeclaration (options : EmitOptions) (e : Endpoint) : String :=
  (Declaration.ofEndpoint options e).render

end ResourceClient.TypeScript
