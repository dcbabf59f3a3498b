/-
Which names of endpoints change what the interfaces file says of something else. The name of an endpoint is clear of
the names that the files have for themselves and of the words of the language; but one of the types that no interface
can have the name of is not among these words, and two global types that the file refers to are captured by an endpoint
of their name.
-/
import ResourceClient.Proofs.Artifact.Names
import ResourceClient.Proofs.TypeScript.References

namespace ResourceClient

open TypeScript

namespace Artifacts

/-- The types of the language whose names no interface can have. -/
def predefinedTypes : List String :=
  ["any", "unknown", "never", "number", "bigint", "boolean", "string", "symbol", "void", "object"]

/-! ## The declarations of the file -/

/-- The declaration of an output, unless it is excluded. -/
def declaredType? (c : Config) (o : EndpointOutput) : Option TypeDeclaration :=
  if c.isExcluded o.name then none else o.endpoint.map fun e => (Declaration.ofEndpoint c.emitOptions e).toType

theorem hasTypes_sharedTypes :
    HasTypes false sharedTypes ([transportType, resourceType, factoryType].flatMap TypeDeclaration.events) false := by
  have hheader : HasTypes false (header ++ "\n") [] false := by
    unfold header
    rw [← String.ofList_append]
    exact .ofList (by decide +kernel)
  have hbreak : HasTypes false "\n" [] false := .ofList (by decide)
  exact ((hheader.append hasTypes_transportDeclaration).append hbreak).append hasTypes_resourceTypes

section

variable {c : Config} {o : EndpointOutput} {outputs : List EndpointOutput}

theorem hasTypes_declarationSection (h : IsRouted c o) :
    HasTypes false (declarationSection o) ((declaredType? c o).toList.flatMap TypeDeclaration.events) false := by
  obtain ⟨e, he, ho⟩ := h.ofEndpoint
  unfold declaredType?
  rw [← he] at ho ⊢
  rw [ho]
  unfold declarationSection EndpointOutput.ofEndpoint
  cases c.isExcluded e.name with
  | true => exact .empty
  | false =>
    have hbreak : HasTypes false "\n" [] false := .ofList (by decide)
    have hname : isShaped e.name.toList = true := by rw [he, h.name]
    have hne : renderDeclaration c.emitOptions e ≠ "" := EndpointOutput.renderDeclaration_ne_empty _
    show HasTypes false (if renderDeclaration c.emitOptions e = "" then "" else "\n" ++ renderDeclaration c.emitOptions e)
      ((Declaration.ofEndpoint c.emitOptions e).toType.events ++ []) false
    rw [if_neg hne, List.append_nil]
    exact hbreak.append (hasTypes_declaration (isSafe_ofEndpoint c.emitOptions hname))

/-- The interfaces file declares the fixed types, and one for each endpoint that is not excluded. -/
theorem typeDeclarations_interfacesText (h : ∀ o ∈ outputs, IsRouted c o) :
    typeDeclarations (interfacesText outputs) =
      [transportType, resourceType, factoryType] ++ outputs.filterMap (declaredType? c) := by
  have htext : interfacesText outputs = sharedTypes ++ sections outputs := by
    refine interfacesText_eq fun o ho => ?_
    obtain ⟨e, -, hoe⟩ := (h o ho).ofEndpoint
    rw [hoe]
    exact declaration_ofEndpoint ..
  have hsections : HasTypes false (sections outputs)
      ((outputs.filterMap (declaredType? c)).flatMap TypeDeclaration.events) false := by
    rw [List.filterMap_eq_flatMap_toList, List.flatMap_assoc]
    exact .join fun o ho => hasTypes_declarationSection (h o ho)
  have hall := hasTypes_sharedTypes.append hsections
  rw [← List.flatMap_append, ← htext] at hall
  rw [typeDeclarations, hall.typeEvents_eq, group_events]

/-! ## Captures -/

theorem declaredType?_eq_some_iff (h : IsRouted c o) {d : TypeDeclaration} :
    declaredType? c o = some d ↔ c.isExcluded o.name = false ∧ ∃ e, o.endpoint = some e ∧ e.name = o.name ∧
      (Declaration.ofEndpoint c.emitOptions e).IsSafe ∧ (Declaration.ofEndpoint c.emitOptions e).toType = d := by
  obtain ⟨e, he, ho⟩ := h.ofEndpoint
  have hendpoint : o.endpoint = some e := congrArg EndpointOutput.endpoint ho
  have hsafe : (Declaration.ofEndpoint c.emitOptions e).IsSafe := isSafe_ofEndpoint _ (he ▸ h.name)
  unfold declaredType?
  rw [hendpoint, Option.map_some]
  constructor
  · intro hd
    split at hd
    · cases hd
    · rename_i hexcluded
      exact ⟨by simpa using hexcluded, e, rfl, he, hsafe, Option.some.inj hd⟩
  · rintro ⟨hexcluded, e', he', -, -, rfl⟩
    cases he'
    rw [hexcluded]
    rfl

/-- Whether the interface of an endpoint has a field for a struct. -/
def TakesStruct (options : EmitOptions) (e : Endpoint) : Prop :=
  ∃ m ∈ (Declaration.ofEndpoint options e).methods, ∃ f ∈ m.fields, f.type = ArgumentType.struct.typescript

/-- Of the names that are neither words of the language nor those of the fixed types, two are captured. -/
theorem captures_iff (h : ∀ o ∈ outputs, IsRouted c o) {name : String} (hword : name ∉ reserved)
    (hfree : name ∉ generated) :
    Captures (interfacesText outputs) name ↔ name = "Array" ∨ name = "Object" ∧
      ∃ o ∈ outputs, o.name ≠ "Object" ∧ c.isExcluded o.name = false ∧
        ∃ e, o.endpoint = some e ∧ TakesStruct c.emitOptions e := by
  unfold Captures
  rw [typeDeclarations_interfacesText h]
  simp only [List.mem_append, or_and_right, exists_or, mem_free_fixed hword hfree, List.mem_filterMap]
  refine or_congr_right ⟨?_, ?_⟩
  · rintro ⟨d, ⟨o, ho, hd⟩, hne, hname⟩
    obtain ⟨hexcluded, e, hendpoint, he, hsafe, rfl⟩ := (declaredType?_eq_some_iff (h o ho)).1 hd
    obtain ⟨rfl, hstruct⟩ := (mem_free_toType hsafe hword).1 hname
    exact ⟨rfl, o, ho, he ▸ hne, hexcluded, e, hendpoint, hstruct⟩
  · rintro ⟨rfl, o, ho, hne, hexcluded, e, hendpoint, hstruct⟩
    obtain ⟨e', he, hoe⟩ := (h o ho).ofEndpoint
    have hsame : e' = e := Option.some.inj ((congrArg EndpointOutput.endpoint hoe).symm.trans hendpoint)
    rw [hsame] at he
    have hsafe : (Declaration.ofEndpoint c.emitOptions e).IsSafe := isSafe_ofEndpoint _ (he ▸ (h o ho).name)
    have hother : (Declaration.ofEndpoint c.emitOptions e).toType.name ≠ "Object" := by
      rw [← he] at hne
      exact hne
    exact ⟨_, ⟨o, ho, (declaredType?_eq_some_iff (h o ho)).2 ⟨hexcluded, e, hendpoint, he, hsafe, rfl⟩⟩,
      hother, (mem_free_toType hsafe hword).2 ⟨rfl, hstruct⟩⟩

/-- The name made for the file at a path is an identifier and none of the names that the generated files declare; it is
one that no interface can have exactly for a file `bigint`, and it is what another declaration of the interfaces file
refers to exactly for a file `Array`, and for a file `Object` beside an endpoint that takes a struct. -/
theorem endpointName_captures_iff (h : ∀ o ∈ outputs, IsRouted c o) (path : String) :
    isIdentifier (endpointName path) = true ∧ endpointName path ∉ generated ∧
      (endpointName path ∈ predefinedTypes ↔ Path.stem? path = some "bigint") ∧
      (Captures (interfacesText outputs) (endpointName path) ↔ Path.stem? path = some "Array" ∨
        Path.stem? path = some "Object" ∧ ∃ o ∈ outputs, o.name ≠ "Object" ∧ c.isExcluded o.name = false ∧
          ∃ e, o.endpoint = some e ∧ TakesStruct c.emitOptions e) := by
  have hname := isIdentifier_endpointName path
  have hfree := endpointName_not_mem_generated path
  have hword := (isIdentifier_iff.1 hname).2
  have hwords : ∀ word ∈ predefinedTypes, word ∈ reserved ∨ word = "bigint" := by decide
  refine ⟨hname, hfree, ?_, ?_⟩
  · have hstem : endpointName path = "bigint" ↔ Path.stem? path = some "bigint" :=
      endpointName_eq_iff (by decide) (by decide) (by decide)
    rw [← hstem]
    exact ⟨fun hmem => (hwords _ hmem).resolve_left hword, fun heq => by rw [heq]; decide⟩
  · rw [captures_iff h hword hfree, endpointName_eq_iff (by decide) (by decide) (by decide),
      endpointName_eq_iff (by decide) (by decide) (by decide)]

end

/-- An endpoint that takes a struct, beside which a file may have any other name but `Object`. -/
theorem endpointName_captures_iff_struct :
    let e : Endpoint := ⟨"pets", "/pets", [], [⟨"post", [], [⟨"owner", .struct, none⟩]⟩]⟩
    let o : EndpointOutput := .ofEndpoint {} true e
    Captures (interfacesText [o]) (endpointName "resources/Object.cfc") ∧
      ¬Captures (interfacesText [o]) (endpointName "resources/Objects.cfc") := by
  intro e o
  have hrouted : ∀ o' ∈ [o], IsRouted {} o' := by
    intro o' ho
    rw [List.mem_singleton.1 ho]
    exact ⟨by decide, e, rfl, rfl⟩
  have hstruct : TakesStruct {} e :=
    ⟨⟨"doPost", [⟨"owner", true, "Object"⟩]⟩, by decide, ⟨"owner", true, "Object"⟩, by decide, by decide⟩
  have hobject := (endpointName_captures_iff hrouted "resources/Object.cfc").2.2.2
  have hobjects := (endpointName_captures_iff hrouted "resources/Objects.cfc").2.2.2
  refine ⟨hobject.2 (.inr ⟨by decide, o, List.mem_cons_self, by decide, rfl, e, rfl, hstruct⟩), ?_⟩
  rw [hobjects]
  rintro (hstem | ⟨hstem, -⟩)
  · exact absurd hstem (by decide)
  · exact absurd hstem (by decide)

/-- A file may be given the name of a type that no interface can have, and one that the interfaces file refers to
whatever the endpoints are. -/
theorem endpointName_bigint_array :
    endpointName "bigint.cfc" = "bigint" ∧ "bigint" ∈ predefinedTypes ∧ endpointName "Array.cfc" = "Array" ∧
      Captures (interfacesText []) (endpointName "Array.cfc") := by
  have harray : endpointName "Array.cfc" = "Array" := by decide
  refine ⟨by decide, by decide, harray, ?_⟩
  have hnone : ∀ o ∈ ([] : List EndpointOutput), IsRouted {} o := fun _ ho => absurd ho List.not_mem_nil
  rw [harray, captures_iff hnone (by decide) (by decide)]
  exact .inl rfl

end Artifacts

end ResourceClient
