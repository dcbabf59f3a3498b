/-
What a document declares, and the endpoint that this comes to. Of a document count the URI of its first component,
the public functions with a name directly inside it, and the arguments with a name directly inside these; from each
only a few attributes. The endpoint is told from these texts by a relation that does not follow the reading: an
argument without one of the six types refuses the component, the first one of the document before all others.
-/
import ResourceClient.Proofs.Endpoint.Extract
import Mathlib.Data.List.Forall2

namespace ResourceClient.Endpoint

open Text Markup

/-! ## Declarations -/

/-- An argument with a name, and the texts that say more of it. -/
structure DeclaredArgument where
  name : String
  type : Option String
  required : Option String

/-- A public function with a name. -/
structure DeclaredFunction where
  name : String
  arguments : List DeclaredArgument

/-- A component, with its URI if it has one. -/
structure DeclaredComponent where
  uri : Option String
  functions : List DeclaredFunction

/-- The text of an attribute without its blank ends, unless nothing is left of it. -/
def text? (e : Element) (key : String) : Option String :=
  ((e.attribute? key).map trimmed).filter (· != "")

def declaredArgument? (e : Element) : Option DeclaredArgument :=
  if e.name = "cfargument" then
    (text? e "name").map (⟨·, e.attribute? "type", e.attribute? "required"⟩)
  else none

def declaredFunction? (e : Element) : Option DeclaredFunction :=
  if e.name = "cffunction" ∧ (e.attribute? "access").map (fold ∘ trimmed) = some "public" then
    (text? e "name").map (⟨·, e.children.filterMap declaredArgument?⟩)
  else none

def declaredComponent (e : Element) : DeclaredComponent :=
  ⟨(text? e "taffy_uri").or (text? e "taffy:uri"), e.children.filterMap declaredFunction?⟩

/-- What the first component of a document declares, each element standing before those inside it. -/
def declared? (forest : Forest) : Option DeclaredComponent :=
  ((preorder forest).find? (·.name == "cfcomponent")).map declaredComponent

/-! ## What declarations come to -/

/-- Whether a type is the one an argument is declared with, in any letter case. -/
def DeclaredArgument.HasType (a : DeclaredArgument) (t : ArgumentType) : Prop :=
  ∃ text, a.type = some text ∧ fold (trimmed text) = t.name

/-- Whether an argument is the one that is declared. -/
structure DeclaredArgument.Declares (a : DeclaredArgument) (r : Argument) : Prop where
  name : r.name = a.name
  type : a.HasType r.type
  required : r.required = a.required.bind requirement?

/-- Whether an operation is the one that is declared: those of its arguments that are path parameters, in any letter
case, are told from the others, both in their order. -/
structure DeclaredFunction.Declares (parameters : List String) (f : DeclaredFunction) (o : Operation) : Prop where
  verb : o.verb = lower f.name
  arguments : ∃ arguments, List.Forall₂ DeclaredArgument.Declares f.arguments arguments ∧
    (o.pathArguments, o.dataArguments) = arguments.partition fun r => parameters.any fun p => fold p == fold r.name

/-- The error that tells of an argument without a type. -/
def DeclaredArgument.fault (f : DeclaredFunction) (a : DeclaredArgument) : ExtractError :=
  match a.type with
  | none => .missingType a.name
  | some text => .unknownType (lower f.name) a.name (trimmed text)

/-- All arguments of a component, each with its function, in the order of the document. -/
def DeclaredComponent.arguments (c : DeclaredComponent) : List (DeclaredFunction × DeclaredArgument) :=
  c.functions.flatMap fun f => f.arguments.map (f, ·)

/-- What is extracted from the declarations of a document. -/
inductive Extracts (name : String) : Option DeclaredComponent → Except ExtractError (Option Endpoint) → Prop
  | missing : Extracts name none (.error .missingComponent)
  | unroutable {c : DeclaredComponent} (without : c.uri = none) : Extracts name (some c) (.ok none)
  | refused {c : DeclaredComponent} {uri : String} {before after : List (DeclaredFunction × DeclaredArgument)}
    {f : DeclaredFunction} {a : DeclaredArgument} (routed : c.uri = some uri)
    (cut : c.arguments = before ++ (f, a) :: after) (typed : ∀ p ∈ before, ∃ t, p.2.HasType t)
    (untyped : ∀ t, ¬a.HasType t) : Extracts name (some c) (.error (a.fault f))
  | routed {c : DeclaredComponent} {uri : String} {operations : List Operation} (routed : c.uri = some uri)
    (each : List.Forall₂ (DeclaredFunction.Declares (Template.parameters uri)) c.functions operations) :
    Extracts name (some c) (.ok (some ⟨name, uri, Template.parameters uri, operations⟩))

/-! ## Traversals with errors -/

section

variable {α β γ ε : Type}

theorem mapM_eq_ok_iff {f : α → Except ε β} {as : List α} {bs : List β} :
    as.mapM f = .ok bs ↔ List.Forall₂ (fun a b => f a = .ok b) as bs := by
  induction as generalizing bs with
  | nil => cases bs <;> simp [pure, Except.pure]
  | cons a as ih =>
    rw [List.mapM_cons]
    cases hf : f a with
    | error e => cases bs <;> simp [bind, Except.bind, hf]
    | ok b =>
      cases has : as.mapM f with
      | error e => cases bs <;> simp [bind, Except.bind, ← ih, has, hf]
      | ok rest => cases bs <;> simp [bind, Except.bind, pure, Except.pure, ← ih, has, hf]

/-- The error of a traversal is the first one of a member. -/
theorem mapM_eq_error_iff {f : α → Except ε β} {fault? : α → Option ε} (h : ∀ a e, f a = .error e ↔ fault? a = some e)
    {as : List α} {e : ε} : as.mapM f = .error e ↔ as.findSome? fault? = some e := by
  induction as with
  | nil => simp [pure, Except.pure]
  | cons a as ih =>
    rw [List.mapM_cons, List.findSome?_cons]
    cases hf : f a with
    | error e' =>
      rw [(h a e').1 hf]
      simp [bind, Except.bind]
    | ok b =>
      have hnone : fault? a = none := by
        by_contra hsome
        obtain ⟨e', he'⟩ := Option.ne_none_iff_exists'.1 hsome
        rw [(h a e').2 he'] at hf
        cases hf
      rw [hnone, ← ih]
      cases as.mapM f <;> simp [bind, Except.bind, pure, Except.pure]

/-- Collecting reads what a choice `g` takes from each member. -/
theorem collect_eq_mapM {f : α → Except ε (Option β)} {g : α → Option γ} {h : γ → Except ε β} {p : α → Bool}
    (hg : ∀ a, p a = false → g a = none)
    (hf : ∀ a, p a = true → f a = (g a).elim (.ok none) fun c => (h c).map some) (as : List α) :
    collect f (as.filter p) = (as.filterMap g).mapM h := by
  induction as with
  | nil => rfl
  | cons a as ih =>
    rw [List.filter_cons, List.filterMap_cons]
    cases hp : p a with
    | false =>
      rw [hg a hp]
      exact ih
    | true =>
      rw [if_pos rfl, collect, hf a hp, ih]
      cases g a with
      | none => rfl
      | some c =>
        rw [Option.elim_some, List.mapM_cons]
        cases h c <;> rfl

end

/-! ## Reading by declarations -/

theorem text?_eq (e : Element) (key : String) : text? e key = nonblankAttribute? e key := by
  unfold text? nonblankAttribute?
  cases e.attribute? key with
  | none => rfl
  | some value =>
    rw [Option.map_some, Option.filter_some, Option.bind_some, nonblank?]
    by_cases h : trimmed value = "" <;> simp [h]

theorem declaredComponent_uri (component : Element) : (declaredComponent component).uri = uri? component := by
  simp only [declaredComponent, text?_eq, uri?, uriKeys, List.findSome?_cons, List.findSome?_nil]
  cases nonblankAttribute? component "taffy_uri" with
  | none => cases nonblankAttribute? component "taffy:uri" <;> rfl
  | some uri => rfl

/-- The type an argument is declared with, if it is one of the six. -/
def DeclaredArgument.type? (a : DeclaredArgument) : Option ArgumentType :=
  a.type.bind (ArgumentType.ofName? ∘ trimmed)

theorem ofName?_eq_some_iff {s : String} {t : ArgumentType} : ArgumentType.ofName? s = some t ↔ fold s = t.name := by
  have hname : fold t.name = t.name := by cases t <;> decide
  constructor
  · intro h
    unfold ArgumentType.ofName? at h
    have hsame := List.find?_some h
    rw [← sameFolded_iff.1 hsame, hname]
  · intro h
    have hsame : ∀ t' : ArgumentType, sameFolded t'.name s = (fold t'.name == t.name) := fun t' => by
      rw [sameFolded, h]
    unfold ArgumentType.ofName?
    simp only [hsame]
    cases t <;> decide

theorem DeclaredArgument.hasType_iff {a : DeclaredArgument} {t : ArgumentType} : a.HasType t ↔ a.type? = some t := by
  simp only [DeclaredArgument.HasType, DeclaredArgument.type?, Option.bind_eq_some_iff, Function.comp_apply,
    ofName?_eq_some_iff]

/-- What an argument comes to in an operation. -/
def DeclaredArgument.read (f : DeclaredFunction) (a : DeclaredArgument) : Except ExtractError Argument :=
  match a.type? with
  | none => .error (a.fault f)
  | some t => .ok ⟨a.name, t, a.required.bind requirement?⟩

theorem argument?_eq {f : DeclaredFunction} {e : Element} (h : (e.name == "cfargument") = true) :
    argument? (lower f.name) e =
      (declaredArgument? e).elim (.ok none) fun a => (a.read f).map some := by
  unfold argument? declaredArgument?
  rw [if_pos (eq_of_beq h), text?_eq]
  cases nonblankAttribute? e "name" with
  | none => rfl
  | some name =>
    simp only [Option.map_some, Option.elim_some, DeclaredArgument.read, DeclaredArgument.type?, DeclaredArgument.fault]
    cases e.attribute? "type" with
    | none => rfl
    | some type =>
      simp only [Option.bind_some, Function.comp_apply]
      cases ArgumentType.ofName? (trimmed type) <;> rfl

/-- What a function comes to among the parameters of a path. -/
def DeclaredFunction.read (parameters : List String) (f : DeclaredFunction) : Except ExtractError Operation :=
  (f.arguments.mapM (DeclaredArgument.read f)).map fun arguments =>
    ⟨lower f.name, arguments.filter fun r => isPathParameter parameters r.name,
      arguments.filter fun r => !isPathParameter parameters r.name⟩

theorem isPublic_iff (e : Element) :
    isPublic e = true ↔ (e.attribute? "access").map (fold ∘ trimmed) = some "public" := by
  have hpublic : fold "public" = "public" := by decide
  unfold isPublic
  cases e.attribute? "access" with
  | none => simp
  | some access => simp [sameFolded, hpublic]

theorem operation?_eq {parameters : List String} {e : Element} (h : (e.name == "cffunction") = true) :
    operation? parameters e =
      (declaredFunction? e).elim (.ok none) fun f => (f.read parameters).map some := by
  unfold operation? declaredFunction?
  simp only [eq_of_beq h, true_and, ← isPublic_iff, text?_eq]
  split
  · cases nonblankAttribute? e "name" with
    | none => rfl
    | some name =>
      let f : DeclaredFunction := ⟨name, e.children.filterMap declaredArgument?⟩
      have hcollect : collect (argument? (lower name)) (e.children.filter (·.name == "cfargument")) =
          (e.children.filterMap declaredArgument?).mapM (DeclaredArgument.read f) :=
        collect_eq_mapM (fun a ha => if_neg (ne_of_beq_false ha)) (fun a ha => argument?_eq (f := f) ha) e.children
      simp only [Option.map_some, Option.elim_some, DeclaredFunction.read, Element.childrenNamed, hcollect]
      cases (e.children.filterMap declaredArgument?).mapM (DeclaredArgument.read f) <;> rfl
  · rfl

/-- The endpoint that declarations come to, read one after the other. -/
def outcome (name : String) : Option DeclaredComponent → Except ExtractError (Option Endpoint)
  | none => .error .missingComponent
  | some c =>
    match c.uri with
    | none => .ok none
    | some uri =>
      (c.functions.mapM (DeclaredFunction.read (Template.parameters uri))).map fun operations =>
        some ⟨name, uri, Template.parameters uri, operations⟩

theorem ofComponent_eq (name : String) (component : Element) :
    ofComponent name component = outcome name (some (declaredComponent component)) := by
  unfold ofComponent
  simp only [outcome, declaredComponent_uri]
  cases uri? component with
  | none => rfl
  | some uri =>
    have hcollect : collect (operation? (Template.parameters uri)) (component.children.filter (·.name == "cffunction")) =
        (component.children.filterMap declaredFunction?).mapM (DeclaredFunction.read (Template.parameters uri)) :=
      collect_eq_mapM (fun a ha => if_neg fun hname => ne_of_beq_false ha hname.1) (fun a ha => operation?_eq ha)
        component.children
    simp only [Element.childrenNamed, hcollect, declaredComponent]

theorem ofForest_eq (name : String) (forest : Forest) : ofForest name forest = outcome name (declared? forest) := by
  unfold ofForest declared? find?
  cases (preorder forest).find? (·.name == "cfcomponent") with
  | none => rfl
  | some component => exact ofComponent_eq name component

/-! ## Endpoints and errors -/

/-- The error of an argument without a type. -/
def fault? (p : DeclaredFunction × DeclaredArgument) : Option ExtractError :=
  if p.2.type? = none then some (p.2.fault p.1) else none

theorem type?_eq_none_iff {a : DeclaredArgument} : a.type? = none ↔ ∀ t, ¬a.HasType t := by
  simp only [DeclaredArgument.hasType_iff, Option.eq_none_iff_forall_ne_some]

theorem fault?_eq_some_iff {f : DeclaredFunction} {a : DeclaredArgument} {e : ExtractError} :
    fault? (f, a) = some e ↔ (∀ t, ¬a.HasType t) ∧ a.fault f = e := by
  simp [fault?, type?_eq_none_iff]

theorem fault?_eq_none_iff {p : DeclaredFunction × DeclaredArgument} : fault? p = none ↔ ∃ t, p.2.HasType t := by
  simp [fault?, type?_eq_none_iff]

theorem findSome?_arguments (c : DeclaredComponent) :
    c.arguments.findSome? fault? =
      c.functions.findSome? fun f => (f.arguments.map (f, ·)).findSome? fault? := by
  unfold DeclaredComponent.arguments
  induction c.functions with
  | nil => rfl
  | cons f fs ih =>
    rw [List.flatMap_cons, List.findSome?_append, List.findSome?_cons, ih]
    cases (f.arguments.map (f, ·)).findSome? fault? <;> rfl

section

variable {parameters : List String} {f : DeclaredFunction} {a : DeclaredArgument}

theorem read_argument_eq_ok_iff {r : Argument} : a.read f = .ok r ↔ a.Declares r := by
  unfold DeclaredArgument.read
  constructor
  · intro h
    split at h
    · cases h
    · rename_i t ht
      cases h
      exact ⟨rfl, DeclaredArgument.hasType_iff.2 ht, rfl⟩
  · rintro ⟨hname, htype, hrequired⟩
    rw [DeclaredArgument.hasType_iff.1 htype, ← hname, ← hrequired]

theorem read_argument_eq_error_iff {e : ExtractError} : a.read f = .error e ↔ fault? (f, a) = some e := by
  unfold DeclaredArgument.read fault?
  cases a.type? <;> simp

theorem read_function_eq_ok_iff {o : Operation} : f.read parameters = .ok o ↔ f.Declares parameters o := by
  unfold DeclaredFunction.read
  constructor
  · intro h
    obtain ⟨arguments, harguments, rfl⟩ := exists_of_map_eq_ok h
    refine ⟨rfl, arguments, (mapM_eq_ok_iff.1 harguments).imp fun _ _ => read_argument_eq_ok_iff.1, ?_⟩
    rw [List.partition_eq_filter_filter]
    rfl
  · rintro ⟨hverb, arguments, heach, hpartition⟩
    rw [mapM_eq_ok_iff.2 (heach.imp fun _ _ => read_argument_eq_ok_iff.2)]
    rw [List.partition_eq_filter_filter, Prod.mk.injEq] at hpartition
    obtain ⟨verb, pathArguments, dataArguments⟩ := o
    obtain ⟨rfl, rfl⟩ := hpartition
    subst hverb
    rfl

theorem read_function_eq_error_iff {e : ExtractError} :
    f.read parameters = .error e ↔ (f.arguments.map (f, ·)).findSome? fault? = some e := by
  have herror : f.arguments.mapM (DeclaredArgument.read f) = .error e ↔
      f.arguments.findSome? (fun a => fault? (f, a)) = some e :=
    mapM_eq_error_iff fun _ _ => read_argument_eq_error_iff
  rw [List.findSome?_map]
  refine Iff.trans ?_ herror
  unfold DeclaredFunction.read
  cases f.arguments.mapM (DeclaredArgument.read f) <;> simp [Except.map]

end

theorem outcome_eq_ok_iff {name uri : String} {c : DeclaredComponent} (h : c.uri = some uri) {e : Option Endpoint} :
    outcome name (some c) = .ok e ↔ ∃ operations, e = some ⟨name, uri, Template.parameters uri, operations⟩ ∧
      List.Forall₂ (DeclaredFunction.Declares (Template.parameters uri)) c.functions operations := by
  simp only [outcome, h]
  constructor
  · intro h
    obtain ⟨operations, hoperations, rfl⟩ := exists_of_map_eq_ok h
    exact ⟨operations, rfl, (mapM_eq_ok_iff.1 hoperations).imp fun _ _ => read_function_eq_ok_iff.1⟩
  · rintro ⟨operations, rfl, heach⟩
    rw [mapM_eq_ok_iff.2 (heach.imp fun _ _ => read_function_eq_ok_iff.2)]
    rfl

theorem outcome_eq_error_iff {name uri : String} {c : DeclaredComponent} (h : c.uri = some uri) {e : ExtractError} :
    outcome name (some c) = .error e ↔ c.arguments.findSome? fault? = some e := by
  rw [findSome?_arguments, ← mapM_eq_error_iff (f := DeclaredFunction.read (Template.parameters uri))
    fun _ _ => read_function_eq_error_iff]
  simp only [outcome, h]
  cases c.functions.mapM (DeclaredFunction.read (Template.parameters uri)) <;> simp [Except.map]

theorem outcome_eq_iff (name : String) (declared : Option DeclaredComponent)
    (r : Except ExtractError (Option Endpoint)) : outcome name declared = r ↔ Extracts name declared r := by
  constructor
  · rintro rfl
    cases declared with
    | none => exact .missing
    | some c =>
      cases hc : c.uri with
      | none =>
        simp only [outcome, hc]
        exact .unroutable hc
      | some uri =>
        cases hr : outcome name (some c) with
        | ok e =>
          obtain ⟨operations, rfl, heach⟩ := (outcome_eq_ok_iff hc).1 hr
          exact .routed hc heach
        | error e =>
          obtain ⟨before, ⟨f, a⟩, after, hcut, hfault, htyped⟩ :=
            List.findSome?_eq_some_iff.1 ((outcome_eq_error_iff hc).1 hr)
          obtain ⟨huntyped, rfl⟩ := fault?_eq_some_iff.1 hfault
          exact .refused hc hcut (fun p hp => fault?_eq_none_iff.1 (htyped p hp)) huntyped
  · intro h
    cases h with
    | missing => rfl
    | unroutable without => simp only [outcome, without]
    | refused routed cut typed untyped =>
      refine (outcome_eq_error_iff routed).2 (List.findSome?_eq_some_iff.2 ⟨_, _, _, cut, ?_, ?_⟩)
      · exact fault?_eq_some_iff.2 ⟨untyped, rfl⟩
      · exact fun p hp => fault?_eq_none_iff.2 (typed p hp)
    | routed routed each => exact (outcome_eq_ok_iff routed).2 ⟨_, rfl, each⟩

/-- What is extracted from a document is told from its declarations, and from nothing else in it. There is an error
exactly if no component is there, or the component has a URI and an argument without a type. -/
theorem ofForest_extracts (name : String) :
    (∀ forest r, ofForest name forest = r ↔ Extracts name (declared? forest) r) ∧
      (∀ forest, (∃ e, ofForest name forest = .error e) ↔ declared? forest = none ∨
        ∃ component, declared? forest = some component ∧ component.uri ≠ none ∧
          ∃ f ∈ component.functions, ∃ a ∈ f.arguments, ∀ t, ¬a.HasType t) ∧
      ∃ result : Option DeclaredComponent → _, ∀ forest, ofForest name forest = result (declared? forest) := by
  refine ⟨fun forest r => ?_, fun forest => ?_, outcome name, ofForest_eq name⟩
  · rw [ofForest_eq, outcome_eq_iff]
  · rw [ofForest_eq]
    cases declared? forest with
    | none => simp [outcome]
    | some c =>
      cases hc : c.uri with
      | none => simp [outcome, hc]
      | some uri =>
        have hnone : c.arguments.findSome? fault? = none ↔ ∀ f ∈ c.functions, ∀ a ∈ f.arguments, ∃ t, a.HasType t := by
          simp [findSome?_arguments, List.findSome?_eq_none_iff, fault?_eq_none_iff]
        simp only [outcome_eq_error_iff hc, ← Option.ne_none_iff_exists', ne_eq, hnone]
        simp [hc]

end ResourceClient.Endpoint
