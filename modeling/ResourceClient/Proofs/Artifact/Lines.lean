/-
The lines of the client file: a head, one field line for each endpoint, the constructor with one line for each
endpoint, and a tail. What a source brings along is the name in its two lines and a literal in the second; there
is no way to bring in a line.
-/
import ResourceClient.Proofs.Artifact.Names
import ResourceClient.Proofs.TypeScript.Registration

namespace ResourceClient

open TypeScript Text

namespace Artifacts

/-! ## Lines -/

/-- The lines before the fields. -/
def headLines (serviceName interfacesFile : String) : List String :=
  [header, "",
    "import * as Interfaces from " ++ Quoted.encode (Config.interfacesModule { interfacesFile }) ++ ";", "",
    "export class " ++ serviceName ++ "<TResult> \x7b"]

/-- The field of an endpoint: its own interface is its type, or the common one when it has none. -/
def fieldOf (c : Config) (name : String) : String :=
  "readonly " ++ name ++ ": Interfaces." ++ (if c.isExcluded name then "TaffyResourceFactory" else name) ++
    "<TResult>;"

/-- The blank line after the fields, when there are any. -/
def blankLines (endpoints : List String) : List String :=
  if endpoints = [] then [] else [""]

/-- The line that opens the constructor. -/
def constructorText : String :=
  "    constructor(protected readonly transport: Interfaces.TaffyHttpClientProvider<TResult>) \x7b"

/-- A line of the constructor that sets the field of an endpoint: one line, with the literal of a template. -/
structure IsRegistration (name line : String) : Prop where
  single : IsLine line
  text : ∃ literal template, line = "        this." ++ name ++ " = create<TResult>(transport, " ++ literal ++ ");" ∧
    Quoted.IsLiteral literal template

/-- The lines of a client file down to the last line of the constructor that sets a field. -/
def memberLines (c : Config) (serviceName : String) (endpoints registrations : List String) : List String :=
  headLines serviceName c.interfacesFile ++ endpoints.map ("    " ++ fieldOf c ·) ++ blankLines endpoints ++
    [constructorText] ++ registrations

theorem unlines_headLines (serviceName : String) (c : Config) :
    unlines (headLines serviceName c.interfacesFile) = clientHead serviceName c.interfacesModule := by
  have hmodule : Config.interfacesModule { interfacesFile := c.interfacesFile } = c.interfacesModule := rfl
  unfold headLines clientHead
  have himport : "\n\nimport * as Interfaces from " = "\n" ++ ("\n" ++ "import * as Interfaces from ") := by decide
  have hclass : ";\n\nexport class " = ";" ++ ("\n" ++ ("\n" ++ "export class ")) := by decide
  have hopen : "<TResult> \x7b\n" = "<TResult> \x7b" ++ "\n" := by decide
  rw [hmodule, himport, hclass, hopen]
  simp [unlines, String.append_assoc, -String.reduceAppend]

theorem unlines_map {α : Type} (f : α → String) (as : List α) :
    unlines (as.map f) = String.join (as.map fun a => f a ++ "\n") := by
  rw [unlines, List.map_map]
  rfl

theorem isLine_headLines {serviceName : String} (h : isShaped serviceName.toList = true) (interfacesFile : String) :
    ∀ l ∈ headLines serviceName interfacesFile, IsLine l := by
  have hheader : IsLine header := isLine_ofList rfl
  simp only [headLines, List.forall_mem_cons, isLine_append]
  exact ⟨hheader, by decide, ⟨⟨by decide, isLine_encode _⟩, by decide⟩, by decide,
    ⟨⟨by decide, isLine_of_isShaped h⟩, by decide⟩, fun _ h => by cases h⟩

theorem renderField_eq (e : Endpoint) (c : Config) : renderField e (!c.isExcluded e.name) = fieldOf c e.name := by
  unfold renderField fieldOf
  cases c.isExcluded e.name <;> rfl

theorem isLine_fieldOf {name : String} (h : isShaped name.toList = true) (c : Config) : IsLine (fieldOf c name) := by
  unfold fieldOf
  simp only [isLine_append]
  refine ⟨⟨⟨⟨by decide, isLine_of_isShaped h⟩, by decide⟩, ?_⟩, by decide⟩
  split
  · decide
  · exact isLine_of_isShaped h

/-! ## The lines of outputs -/

section

variable {c : Config} {serviceName : String} {outputs : List EndpointOutput}

theorem fieldLine_eq {o : EndpointOutput} (h : IsRouted c o) : fieldLine o = "    " ++ fieldOf c o.name ++ "\n" := by
  obtain ⟨e, he, ho⟩ := h.ofEndpoint
  have hfield : o.field = renderField e (!c.isExcluded o.name) := congrArg EndpointOutput.field ho
  rw [fieldLine, hfield, ← he, renderField_eq]

/-- The line of an output in the constructor. -/
def registrationOf (o : EndpointOutput) : String :=
  "        " ++ o.registration

theorem isRegistration_registrationOf {o : EndpointOutput} (h : IsRouted c o) :
    IsRegistration o.name (registrationOf o) := by
  obtain ⟨e, he, ho⟩ := h.ofEndpoint
  have hindent : "        this." = "        " ++ "this." := by decide
  rw [registrationOf, ho, ← he]
  refine ⟨?_, _, _, ?_, Quoted.isLiteral_encode (Template.isClean_clean e.uriTemplate).printable⟩
  · exact isLine_append.2 ⟨by decide, isLine_renderRegistration (he ▸ h.name)⟩
  · simp only [EndpointOutput.ofEndpoint, renderRegistration, hindent, String.append_assoc]

/-- The client file of endpoints is its lines and the tail. -/
theorem clientText_eq_unlines (h : ∀ o ∈ outputs, IsRouted c o) :
    clientText serviceName c.interfacesModule outputs =
      unlines (memberLines c serviceName (outputs.map (·.name)) (outputs.map registrationOf)) ++ clientTail := by
  have hadds : ∀ o ∈ outputs, o.isEmpty = false := by
    intro o ho
    obtain ⟨e, -, he⟩ := (h o ho).ofEndpoint
    rw [he]
    exact EndpointOutput.isEmpty_ofEndpoint e
  have hfields : String.join (outputs.map fieldLine) = unlines ((outputs.map (·.name)).map ("    " ++ fieldOf c ·)) := by
    rw [List.map_map, unlines_map, List.map_congr_left fun o ho => fieldLine_eq (h o ho)]
    rfl
  have hblank : fieldsEnd outputs = unlines (blankLines (outputs.map (·.name))) := by
    cases outputs <;> rfl
  have hregistrations : registrationLines outputs = unlines (outputs.map registrationOf) := (unlines_map _ _).symm
  have hconstructor : constructorLine = unlines [constructorText] := by
    rw [unlines_singleton]
    decide +kernel
  rw [clientText_eq hadds, hfields, hblank, hregistrations, hconstructor, ← unlines_headLines]
  simp only [memberLines, unlines_append, String.append_assoc]

theorem isLine_memberLines (hs : isShaped serviceName.toList = true) (h : ∀ o ∈ outputs, IsRouted c o) :
    ∀ l ∈ memberLines c serviceName (outputs.map (·.name)) (outputs.map registrationOf), IsLine l := by
  unfold memberLines
  simp only [List.forall_mem_append, List.forall_mem_map, List.forall_mem_singleton]
  have hfield : ∀ o ∈ outputs, IsLine ("    " ++ fieldOf c o.name) := fun o ho =>
    isLine_append.2 ⟨by decide, isLine_fieldOf (h o ho).name c⟩
  refine ⟨⟨⟨⟨isLine_headLines hs _, hfield⟩, ?_⟩, isLine_ofList rfl⟩, ?_⟩
  · unfold blankLines
    split <;> simp [IsLine]
  · exact fun o ho => (isRegistration_registrationOf (h o ho)).single

end

/-! ## Outputs that add nothing -/

/-- A list of outputs with outputs of components that are not routed put in anywhere. -/
inductive Padded : List EndpointOutput → List EndpointOutput → Prop
  | nil : Padded [] []
  | keep (o : EndpointOutput) {outputs padded : List EndpointOutput} (h : Padded outputs padded) :
      Padded (o :: outputs) (o :: padded)
  | insert {o : EndpointOutput} {outputs padded : List EndpointOutput} (hr : o.registration = "")
      (hd : o.declaration = "") (h : Padded outputs padded) : Padded outputs (o :: padded)

variable {outputs padded : List EndpointOutput}

theorem interfacesText_padded (h : Padded outputs padded) : interfacesText padded = interfacesText outputs := by
  have hshown : (padded.map (·.declaration)).filter (· != "") = (outputs.map (·.declaration)).filter (· != "") := by
    induction h with
    | nil => rfl
    | keep o _ ih => rw [List.map_cons, List.map_cons, List.filter_cons, List.filter_cons, ih]
    | insert _ hd _ ih => rw [List.map_cons, List.filter_cons_of_neg (by simp [hd]), ih]
  rw [interfacesText, hshown, interfacesText]

theorem clientText_padded (h : Padded outputs padded) (serviceName interfacesModule : String) :
    clientText serviceName interfacesModule padded = clientText serviceName interfacesModule outputs := by
  have hadds : padded.filter (fun o => !o.isEmpty) = outputs.filter (fun o => !o.isEmpty) := by
    induction h with
    | nil => rfl
    | keep o _ ih => rw [List.filter_cons, List.filter_cons, ih]
    | insert hr _ _ ih => rw [List.filter_cons_of_neg (by simp [EndpointOutput.isEmpty, hr]), ih]
  unfold clientText
  rw [hadds]

end Artifacts

/-! ## Runs -/

open Artifacts

/-- The client file of a run, line by line. -/
structure ClientLines (c : Config) (serviceName : String) (g : Generation) (registrations : List String) : Prop where
  /-- The file is these lines and the tail. -/
  text : (g.artifacts c).client =
    unlines (memberLines c serviceName g.report.endpoints registrations) ++ clientTail
  lines : Source.lines (g.artifacts c).client.toList =
    (memberLines c serviceName g.report.endpoints registrations).map String.toList ++
      Source.lines clientTail.toList
  /-- None of the lines is more than one. -/
  single : ∀ l ∈ memberLines c serviceName g.report.endpoints registrations, IsLine l
  /-- There is one line for each endpoint in the constructor, and it names the endpoint. -/
  registrations : List.Forall₂ IsRegistration g.report.endpoints registrations

theorem clientLines_ofOutputs {c : Config} {serviceName : String} {g : Generation}
    (hs : isShaped serviceName.toList = true) (hservice : g.report.serviceName = serviceName)
    (hnames : g.outputs.map (·.name) = g.report.endpoints) (ho : ∀ o ∈ g.outputs, IsRouted c o) :
    ClientLines c serviceName g (g.outputs.map registrationOf) := by
  have htext : (g.artifacts c).client =
      unlines (memberLines c serviceName g.report.endpoints (g.outputs.map registrationOf)) ++ clientTail := by
    rw [← hnames, ← clientText_eq_unlines ho, ← hservice]
    rfl
  have hsingle := isLine_memberLines hs ho
  rw [hnames] at hsingle
  refine ⟨htext, ?_, hsingle, ?_⟩
  · rw [htext, String.toList_append, lines_unlines_append hsingle]
  · rw [← hnames, List.forall₂_map_left_iff, List.forall₂_map_right_iff]
    exact List.forall₂_same.2 fun o hm => isRegistration_registrationOf (ho o hm)

/-- A run over a folder in a system at rest succeeds. The lines of its client file are fixed but for the names of
the endpoints and one literal for each; and outputs of components without a URI change neither file. -/
theorem run_client_lines {σ : Type} [FileStore (StateM σ)] {state : σ} {c : Config} {serviceName folder : String}
    {entries : List Entry} {content : String → Except FileError ByteArray} (hc : c.validate = .ok serviceName)
    (h : AtRest state folder entries content) :
    ∃ g registrations, (run c folder : StateM σ _) state = (.ok g, state) ∧
      ClientLines c serviceName g registrations ∧
      ∀ outputs padded, Padded outputs padded → interfacesText padded = interfacesText outputs ∧
        ∀ serviceName interfacesModule,
          clientText serviceName interfacesModule padded = clientText serviceName interfacesModule outputs := by
  have hs : isShaped serviceName.toList = true := (isIdentifier_iff.1 (isIdentifier_of_validate hc)).1
  refine ⟨_, _, run_eq hc h, clientLines_ofOutputs hs rfl rfl fun o ho => ?_,
    fun outputs padded hp => ⟨interfacesText_padded hp, clientText_padded hp⟩⟩
  exact isRouted_of_mem_outputs (h.nodup_paths c) (fun s => SourceFile.name_of_mem_ofEntries) ho

/-- One of two files is a component, whose URI tries to end the line that it is in. -/
theorem run_client_lines_besideBroken :
    let tree := besideBroken "<cfcomponent taffy_uri='/a\"); evil(\n//'></cfcomponent>".toUTF8
    let c : Config := { serviceName := some "Api" }
    c.validate = .ok "Api" ∧ AtRest tree "src" [⟨"a.cfc", true⟩, ⟨"b.cfc", true⟩] tree.read ∧
    ∃ g registrations, (run c "src" : TreeM _) tree = (.ok g, tree) ∧ ClientLines c "Api" g registrations := by
  intro tree c
  have hc : c.validate = .ok "Api" := by decide +kernel
  have h : AtRest tree "src" [⟨"a.cfc", true⟩, ⟨"b.cfc", true⟩] tree.read := atRest_besideBroken _
  obtain ⟨g, registrations, hg, hl, -⟩ := run_client_lines hc h
  exact ⟨hc, h, g, registrations, hg, hl⟩

end ResourceClient
