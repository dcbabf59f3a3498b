/-
Endpoints: a URI template with the operations a resource offers on it, and the arguments of each.
-/
import ResourceClient.Text.Case
import ResourceClient.Text.Fold

namespace ResourceClient

open Text

/-- A name that stands for no member of an enumeration. -/
inductive LookupError
  | unknownName
  deriving DecidableEq, Repr

def LookupError.message : LookupError → String
  | .unknownName => "Matching variant not found"

/-! ## Argument types -/

/-- The types an argument may be declared with. -/
inductive ArgumentType
  | array
  | date
  | string
  | numeric
  | boolean
  | struct
  deriving DecidableEq, Repr, Inhabited

namespace ArgumentType

def all : List ArgumentType :=
  [.array, .date, .string, .numeric, .boolean, .struct]

def name : ArgumentType → String
  | .array => "array"
  | .date => "date"
  | .string => "string"
  | .numeric => "numeric"
  | .boolean => "boolean"
  | .struct => "struct"

/-- The type of the argument in the generated client. -/
def typescript : ArgumentType → String
  | .array => "any[]"
  | .date => "string"
  | .string => "string"
  | .numeric => "number"
  | .boolean => "boolean"
  | .struct => "Object"

/-- The type of a name, in any letter case. -/
def ofName? (s : String) : Option ArgumentType :=
  all.find? fun t => sameFolded t.name s

end ArgumentType

/-! ## Verbs -/

/-- The verbs that the transport of the client has a method for. -/
inductive Verb
  | get
  | delete
  | post
  | put
  | patch
  deriving DecidableEq, Repr, Inhabited

namespace Verb

def all : List Verb :=
  [.get, .delete, .post, .put, .patch]

/-- The name of the verb, and of the transport's method. -/
def name : Verb → String
  | .get => "get"
  | .delete => "delete"
  | .post => "post"
  | .put => "put"
  | .patch => "patch"

/-- The method of a bound resource. -/
def proxyMethod : Verb → String
  | .get => "doGet"
  | .delete => "doDelete"
  | .post => "doPost"
  | .put => "doPut"
  | .patch => "doPatch"

/-- Whether the data goes into the body of the request, and not into its query. -/
def sendsBody : Verb → Bool
  | .get | .delete => false
  | .post | .put | .patch => true

/-- The verb of a name, in any letter case. -/
def ofName (s : String) : Except LookupError Verb :=
  match all.find? fun v => sameFolded v.name s with
  | some v => .ok v
  | none => .error .unknownName

end Verb

/-- The method that performs a verb on a bound resource. -/
def methodName (verb : String) : String :=
  "do" ++ capitalize (lower verb)

/-! ## Endpoints -/

/-- An argument of an operation; `required` is absent when the declaration does not say. -/
structure Argument where
  name : String
  type : ArgumentType
  required : Option Bool
  deriving DecidableEq, Repr, Inhabited

/-- An argument is optional unless it is declared required. -/
def Argument.isRequired (a : Argument) : Bool :=
  a.required.getD false

/-- An operation, with the arguments that the path supplies apart from the others. -/
structure Operation where
  verb : String
  pathArguments : List Argument
  dataArguments : List Argument
  deriving DecidableEq, Repr, Inhabited

/-- The verb of an operation the transport can perform. -/
def Operation.verb? (o : Operation) : Option Verb :=
  (Verb.ofName o.verb).toOption

def Operation.methodName (o : Operation) : String :=
  ResourceClient.methodName o.verb

/-- What one component offers under its URI. -/
structure Endpoint where
  name : String
  uriTemplate : String
  pathParameters : List String
  operations : List Operation
  deriving DecidableEq, Repr, Inhabited

/-- Whether a name is a path parameter, in any letter case. -/
def isPathParameter (parameters : List String) (name : String) : Bool :=
  parameters.any fun p => sameFolded p name

end ResourceClient
