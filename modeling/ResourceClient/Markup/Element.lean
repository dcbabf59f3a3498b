/-
Elements and forests of elements.
-/
import ResourceClient.Markup.Attributes

namespace ResourceClient.Markup

/-- An element with its attributes and the elements directly inside it. -/
structure Element where
  name : String
  attributes : Attributes
  children : List Element
  deriving Repr, Inhabited

abbrev Forest := List Element

mutual
/-- An element and all below it, each before its children. -/
def Element.preorder : Element → List Element
  | ⟨name, attributes, children⟩ => ⟨name, attributes, children⟩ :: preorder children

/-- The elements of a forest, each before its children. -/
def preorder : Forest → List Element
  | [] => []
  | e :: es => e.preorder ++ preorder es
end

/-- The first element of a name. -/
def find? (forest : Forest) (name : String) : Option Element :=
  (preorder forest).find? (·.name == name)

/-- The value of an attribute. -/
def Element.attribute? (e : Element) (key : String) : Option String :=
  e.attributes.get? key

/-- The direct children of a name. -/
def Element.childrenNamed (e : Element) (name : String) : List Element :=
  e.children.filter (·.name == name)

end ResourceClient.Markup
