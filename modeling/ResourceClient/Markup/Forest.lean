/-
Forests from events. A closing tag ends the innermost open element, whose name it has to bear; an
argument declaration has no inside, so it ends where it opens and its closing tag means nothing.
-/
import ResourceClient.Markup.Element
import ResourceClient.Markup.Event

namespace ResourceClient.Markup

/-- The elements without an inside. -/
def isVoid (name : String) : Bool :=
  name == "cfargument"

/-- An element that is still open, with the children it has so far. -/
structure OpenElement where
  name : String
  attributes : Attributes
  children : List Element

def OpenElement.close (e : OpenElement) : Element :=
  ⟨e.name, e.attributes, e.children⟩

/-- The open elements, innermost first, and the roots that are complete. -/
structure Growth where
  stack : List OpenElement := []
  roots : Forest := []

namespace Growth

/-- Adds a complete element to the innermost open one, or to the roots. -/
def attach (g : Growth) (e : Element) : Growth :=
  match g.stack with
  | [] => { g with roots := g.roots ++ [e] }
  | top :: below => { g with stack := { top with children := top.children ++ [e] } :: below }

/-- Takes one event. -/
def feed (g : Growth) : Event → Except NestingFault Growth
  | .empty name attributes => .ok (g.attach ⟨name, attributes, []⟩)
  | .opening name attributes =>
    if isVoid name then .ok (g.attach ⟨name, attributes, []⟩)
    else .ok { g with stack := ⟨name, attributes, []⟩ :: g.stack }
  | .closing name =>
    if isVoid name then .ok g
    else match g.stack with
      | [] => .error (.unexpectedClose name)
      | top :: below =>
        if top.name = name then .ok (attach { g with stack := below } top.close)
        else .error (.mismatched top.name name)

/-- The forest, once nothing is open. -/
def finish (g : Growth) : Except NestingFault Forest :=
  match g.stack with
  | [] => .ok g.roots
  | top :: _ => .error (.unclosed top.name)

end Growth

/-- Takes a sequence of events. -/
def feedAll (g : Growth) (es : List Event) : Except NestingFault Growth :=
  es.foldlM Growth.feed g

/-- The forest of a sequence of events. -/
def ofEvents (es : List Event) : Except NestingFault Forest :=
  (feedAll {} es).bind Growth.finish

/-- The forest of markup. A tag that does not fit is reported before a fault further on, and a fault
before an element left open. -/
def parse (markup : String) : Except ParseError Forest :=
  match feedAll {} (events markup).1, (events markup).2 with
  | .error fault, _ => .error (.nesting fault)
  | .ok _, some error => .error error
  | .ok g, none => g.finish.mapError .nesting

end ResourceClient.Markup
