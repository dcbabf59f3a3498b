/-
Endpoints from elements. The first component of a forest is the resource; its public functions with a
name are the operations, and their named arguments are the operations' arguments. A component without
a URI offers nothing.
-/
import ResourceClient.Endpoint.Basic
import ResourceClient.Markup.Element
import ResourceClient.Text.Blank
import ResourceClient.Text.Case
import ResourceClient.Uri.Template

namespace ResourceClient

open Text Markup

/-- What keeps a component from being an endpoint. -/
inductive ExtractError
  | missingComponent
  | missingType (argument : String)
  | unknownType (verb argument type : String)
  deriving DecidableEq, Repr

def ExtractError.message : ExtractError → String
  | .missingComponent => "no <cfcomponent> element found"
  | .missingType argument =>
    "<cfargument name=\"" ++ argument ++ "\"> is missing the `type` attribute"
  | .unknownType verb argument type =>
    "argument `" ++ argument ++ "` of `" ++ verb ++ "` has unsupported type `" ++ type ++ "`"

namespace Endpoint

/-- The attributes that may hold the URI, in the order they are consulted. -/
def uriKeys : List String :=
  ["taffy_uri", "taffy:uri"]

/-- An attribute without its blank ends, unless nothing is left of it. -/
def nonblankAttribute? (e : Element) (key : String) : Option String :=
  (e.attribute? key).bind nonblank?

/-- The URI template of a component. -/
def uri? (component : Element) : Option String :=
  uriKeys.findSome? (nonblankAttribute? component)

def isPublic (function : Element) : Bool :=
  (function.attribute? "access").any fun access => sameFolded (trimmed access) "public"

/-- The reading of the attribute `required`: other texts than these four declare nothing. -/
def requirement? (text : String) : Option Bool :=
  let word := fold (trimmed text)
  if word = "true" ∨ word = "yes" then some true
  else if word = "false" ∨ word = "no" then some false
  else none

/-- The argument an element declares for an operation; without a name it declares none. -/
def argument? (verb : String) (e : Element) : Except ExtractError (Option Argument) :=
  match nonblankAttribute? e "name" with
  | none => .ok none
  | some name =>
    match e.attribute? "type" with
    | none => .error (.missingType name)
    | some type =>
      match ArgumentType.ofName? (trimmed type) with
      | none => .error (.unknownType verb name (trimmed type))
      | some t => .ok (some ⟨name, t, (e.attribute? "required").bind requirement?⟩)

/-- Collects what `f` finds in a list, up to its first error. -/
def collect {α β ε : Type} (f : α → Except ε (Option β)) : List α → Except ε (List β)
  | [] => .ok []
  | a :: as =>
    match f a with
    | .error e => .error e
    | .ok none => collect f as
    | .ok (some b) => (collect f as).map (b :: ·)

/-- The operation a function declares; one that is not public or has no name declares none. -/
def operation? (parameters : List String) (function : Element) : Except ExtractError (Option Operation) :=
  if isPublic function then
    match nonblankAttribute? function "name" with
    | none => .ok none
    | some name =>
      let verb := lower name
      (collect (argument? verb) (function.childrenNamed "cfargument")).map fun arguments =>
        some ⟨verb, arguments.filter fun a => isPathParameter parameters a.name,
          arguments.filter fun a => !isPathParameter parameters a.name⟩
  else .ok none

/-- The endpoint of a component. -/
def ofComponent (name : String) (component : Element) : Except ExtractError (Option Endpoint) :=
  match uri? component with
  | none => .ok none
  | some uri =>
    let parameters := Template.parameters uri
    (collect (operation? parameters) (component.childrenNamed "cffunction")).map fun operations =>
      some ⟨name, uri, parameters, operations⟩

/-- The endpoint of the first component of a forest. -/
def ofForest (name : String) (forest : Forest) : Except ExtractError (Option Endpoint) :=
  match find? forest "cfcomponent" with
  | none => .error .missingComponent
  | some component => ofComponent name component

end Endpoint

end ResourceClient
