/-
From a component to its source and back: whatever values its attributes have, however they are written, and
whatever lines stand between its tags, generating the source gives the endpoint of the component.
-/
import ResourceClient.Generation.Output
import ResourceClient.Proofs.Source.ComponentText

namespace ResourceClient

open Text Markup

/-! ## The endpoint of a component -/

/-- The operation of a public function: its arguments are told apart by whether the path has a parameter of
their name, in any letter case. -/
def PublicFunction.operation (parameters : List String) (f : PublicFunction) : Operation where
  verb := lower (trimmed f.name)
  pathArguments := f.arguments.filter fun a => parameters.any fun p => fold p == fold a.name
  dataArguments := f.arguments.filter fun a => !parameters.any fun p => fold p == fold a.name

def ResourceComponent.endpoint (r : ResourceComponent) (name : String) : Endpoint where
  name
  uriTemplate := r.uri
  pathParameters := Template.parameters r.uri
  operations := r.functions.map (PublicFunction.operation (Template.parameters r.uri))

/-- A component with a URI, names of functions that are not blank, and names of arguments without blank
ends. -/
structure ResourceComponent.IsProper (r : ResourceComponent) : Prop where
  uri : r.uri ≠ "" ∧ trimmed r.uri = r.uri
  functions : ∀ f ∈ r.functions, trimmed f.name ≠ ""
  arguments : ∀ f ∈ r.functions, ∀ a ∈ f.arguments, a.name ≠ "" ∧ trimmed a.name = a.name

/-! ## Attributes -/

theorem nonblank?_eq_some {s : String} (h : trimmed s ≠ "") : nonblank? s = some (trimmed s) := by
  rw [nonblank?, if_neg h]

theorem Argument.attributes (a : Argument) : a.element.attribute? "name" = some a.name ∧
    a.element.attribute? "type" = some a.type.name ∧
    a.element.attribute? "required" = a.required.map fun required => if required then "true" else "false" := by
  obtain ⟨name, type, required⟩ := a
  unfold Element.attribute? Argument.element
  rw [Attributes.get?_ofList, Attributes.get?_ofList, Attributes.get?_ofList]
  cases required <;> exact ⟨rfl, rfl, rfl⟩

theorem PublicFunction.attributes (f : PublicFunction) : f.element.attribute? "name" = some f.name ∧
    f.element.attribute? "access" = some "public" := by
  unfold Element.attribute? PublicFunction.element
  rw [Attributes.get?_ofList, Attributes.get?_ofList]
  exact ⟨rfl, rfl⟩

theorem ResourceComponent.attributes (r : ResourceComponent) : r.element.attribute? "taffy_uri" = some r.uri := by
  unfold Element.attribute? ResourceComponent.element
  rw [Attributes.get?_ofList]
  rfl

/-! ## Extraction -/

namespace Endpoint

/-- The types are found by their names. -/
theorem ofName?_name (t : ArgumentType) : ArgumentType.ofName? (trimmed t.name) = some t := by
  cases t <;> decide +kernel

theorem bind_requirement? (required : Option Bool) :
    (required.map fun r => if r then "true" else "false").bind requirement? = required := by
  rcases required with _ | _ | _
  · rfl
  · decide +kernel
  · decide +kernel

theorem collect_map {α β γ ε : Type} {f : α → Except ε (Option β)} {g : γ → α} {k : γ → β} {cs : List γ}
    (h : ∀ c ∈ cs, f (g c) = .ok (some (k c))) : collect f (cs.map g) = .ok (cs.map k) := by
  induction cs with
  | nil => rfl
  | cons c cs ih =>
    rw [List.map_cons, collect, h c List.mem_cons_self]
    simp only
    rw [ih fun d hd => h d (List.mem_cons_of_mem _ hd)]
    rfl

theorem argument?_element {a : Argument} (hne : a.name ≠ "") (ht : trimmed a.name = a.name) (verb : String) :
    argument? verb a.element = .ok (some a) := by
  have hname : nonblankAttribute? a.element "name" = some a.name := by
    rw [nonblankAttribute?, a.attributes.1, Option.bind_some, nonblank?_eq_some (by rwa [ht]), ht]
  unfold argument?
  rw [hname]
  simp only [a.attributes.2.1, ofName?_name, a.attributes.2.2, bind_requirement?]

theorem childrenNamed_element (f : PublicFunction) :
    f.element.childrenNamed "cfargument" = f.arguments.map Argument.element := by
  refine List.filter_eq_self.2 fun e he => ?_
  obtain ⟨a, -, rfl⟩ := List.mem_map.1 he
  rfl

theorem operation?_element {f : PublicFunction} (hf : trimmed f.name ≠ "")
    (ha : ∀ a ∈ f.arguments, a.name ≠ "" ∧ trimmed a.name = a.name) (parameters : List String) :
    operation? parameters f.element = .ok (some (f.operation parameters)) := by
  have hpublic : isPublic f.element = true := by
    rw [isPublic, f.attributes.2]
    decide +kernel
  have hname : nonblankAttribute? f.element "name" = some (trimmed f.name) := by
    rw [nonblankAttribute?, f.attributes.1, Option.bind_some, nonblank?_eq_some hf]
  have harguments : collect (argument? (lower (trimmed f.name))) (f.arguments.map Argument.element) =
      .ok (f.arguments.map id) :=
    collect_map fun a h => argument?_element (ha a h).1 (ha a h).2 _
  unfold operation?
  rw [if_pos hpublic, hname]
  simp only
  rw [childrenNamed_element, harguments, List.map_id]
  rfl

theorem ofForest_element {r : ResourceComponent} (hp : r.IsProper) (name : String) :
    ofForest name [r.element] = .ok (some (r.endpoint name)) := by
  have hfind : find? [r.element] "cfcomponent" = some r.element := by
    simp [find?, preorder, ResourceComponent.element, Element.preorder]
  have huri : uri? r.element = some r.uri := by
    have huri : nonblankAttribute? r.element "taffy_uri" = some r.uri := by
      rw [nonblankAttribute?, r.attributes, Option.bind_some, nonblank?_eq_some (by rw [hp.uri.2]; exact hp.uri.1),
        hp.uri.2]
    rw [uri?, uriKeys, List.findSome?_cons, huri]
  have hchildren : r.element.childrenNamed "cffunction" = r.functions.map PublicFunction.element := by
    refine List.filter_eq_self.2 fun e he => ?_
    obtain ⟨f, -, rfl⟩ := List.mem_map.1 he
    rfl
  have hoperations := collect_map (f := operation? (Template.parameters r.uri)) (g := PublicFunction.element)
    (k := PublicFunction.operation (Template.parameters r.uri)) fun f hf =>
      operation?_element (hp.functions f hf) (hp.arguments f hf) _
  rw [ofForest, hfind]
  simp only
  rw [ofComponent, huri]
  simp only
  rw [hchildren, hoperations]
  rfl

end Endpoint

/-- Whatever source declares a component, its endpoint is generated from it, under any name and with any
options. -/
theorem generateUnit_of_isDeclaredIn {r : ResourceComponent} {source : String} (hp : r.IsProper)
    (h : r.IsDeclaredIn source) (options : TypeScript.EmitOptions) (typed : Bool) (name : String) :
    ∃ o, generateUnit options typed name source = .ok o ∧ o.endpoint = some (r.endpoint name) ∧
      o = .ofEndpoint options typed (r.endpoint name) := by
  refine ⟨_, ?_, rfl, rfl⟩
  rw [generateUnit, h.parse]
  simp only
  rw [Endpoint.ofForest_element hp]

/-- A component in whose attributes are a quote, an ampersand, a line feed and blanks. -/
def sampleComponent : ResourceComponent where
  uri := "/\"/{id}"
  functions := [⟨" Get\n", [⟨"ID", .numeric, some true⟩, ⟨"&", .string, none⟩]⟩]

/-- A source of it, with a comment and a line of code between its tags. -/
def sampleLines : List String :=
  ["<!--- A resource. --->",
   "<cfcomponent taffy_uri=\"/&quot;/{id}\">",
   "<cffunction name=\" Get&#10;\" access=\"public\">",
   "<cfargument name=\"ID\" type=\"numeric\" required=\"true\">",
   "<cfargument name=\"&amp;\" type=\"string\">",
   "  <cfreturn 1>",
   "</cffunction>",
   "</cfcomponent>"]

def sampleSource : String :=
  String.ofList (['\n'].intercalate (sampleLines.map String.toList))

theorem generateUnit_of_isDeclaredIn_sample :
    sampleComponent.IsProper ∧ sampleComponent.IsDeclaredIn sampleSource ∧
      ∃ o, generateUnit {} true "items" sampleSource = .ok o ∧
        o.endpoint = some ⟨"items", "/\"/{id}", ["id"],
          [⟨"get", [⟨"ID", .numeric, some true⟩], [⟨"&", .string, none⟩]⟩]⟩ := by
  have hp : sampleComponent.IsProper := ⟨by decide +kernel, by decide +kernel, by decide +kernel⟩
  have hcomment : Source.IsOther "<!--- A resource. --->".toList := ⟨by decide, by decide +kernel⟩
  have hcode : Source.IsOther "  <cfreturn 1>".toList := ⟨by decide, by decide +kernel⟩
  have htags : sampleComponent.lines =
      (sampleLines.filter fun line => Source.isDeclaration line.toList).map String.toList := by decide +kernel
  have h : sampleComponent.IsDeclaredIn sampleSource := by
    refine ⟨_, sampleLines.map String.toList, sampleComponent.writes_lines, ?_, String.toList_ofList⟩
    rw [htags]
    exact .other hcomment (.kept (.kept (.kept (.kept (.other hcode (.kept (.kept .nil)))))))
  refine ⟨hp, h, ?_⟩
  obtain ⟨o, ho, he, -⟩ := generateUnit_of_isDeclaredIn hp h {} true "items"
  refine ⟨o, ho, ?_⟩
  rw [he]
  decide +kernel

end ResourceClient
