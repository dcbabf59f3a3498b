/-
Resources at work: a factory holds a clean URI template, binding it to arguments gives a URL, and a verb
on that URL gives the request that the transport sends.
-/
import ResourceClient.Data
import ResourceClient.Endpoint.Basic
import ResourceClient.Uri.Query
import ResourceClient.Uri.Template

namespace ResourceClient

/-- What the transport is asked to do. Options are passed on as they are. -/
structure Request where
  verb : Verb
  url : String
  data : Option Data
  options : Option Data

/-- A source of resources under one template. -/
structure ResourceFactory where
  template : String
  deriving DecidableEq, Repr

namespace ResourceFactory

def ofTemplate (template : String) : ResourceFactory :=
  ⟨Template.clean template⟩

def ofEndpoint (e : Endpoint) : ResourceFactory :=
  ofTemplate e.uriTemplate

/-- The URL of the resource for some arguments. -/
def bind (f : ResourceFactory) (args : List String) : String :=
  Template.fill f.template args

end ResourceFactory

/-- The request for a verb on a URL: verbs without a body put the data into the query. -/
def dispatch (url : String) (verb : Verb) (data options : Option Data) : Request :=
  if verb.sendsBody then ⟨verb, url, data, options⟩
  else ⟨verb, url ++ (data.map Query.encode).getD "", none, options⟩

end ResourceClient
