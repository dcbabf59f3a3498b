/-
The layout of the generated files: fixed texts, and between them one part for each output, in order. In the
interfaces file it is the section of its declaration, if it has one, and in the client file a field line and
a registration line.
-/
import ResourceClient.Artifact.Assemble
import ResourceClient.Proofs.Generation.Output

namespace ResourceClient.Artifacts

open TypeScript

/-- The part of the interfaces file that no output changes. -/
def sharedTypes : String :=
  header ++ "\n" ++ transportDeclaration ++ "\n" ++ resourceTypes

/-- What an output adds to the interfaces file. -/
def declarationSection (o : EndpointOutput) : String :=
  if o.declaration = "" then "" else "\n" ++ o.declaration

/-- The sections of some outputs. -/
def sections (outputs : List EndpointOutput) : String :=
  String.join (outputs.map declarationSection)

/-- The line of an output among the fields of the class. -/
def fieldLine (o : EndpointOutput) : String :=
  "    " ++ o.field ++ "\n"

/-- The blank line after the fields, if there are any. -/
def fieldsEnd (outputs : List EndpointOutput) : String :=
  if outputs.isEmpty then "" else "\n"

theorem fieldLines_eq (outputs : List EndpointOutput) :
    fieldLines outputs = String.join (outputs.map fieldLine) ++ fieldsEnd outputs :=
  rfl

theorem sections_append (a b : List EndpointOutput) : sections (a ++ b) = sections a ++ sections b := by
  unfold sections
  rw [List.map_append, String.join_append]

/-! ## The interfaces file -/

theorem intercalate_cons (sep s : String) (ss : List String) :
    sep.intercalate (s :: ss) = s ++ String.join (ss.map (sep ++ ·)) := by
  induction ss generalizing s with
  | nil => rw [String.intercalate_singleton, List.map_nil, String.join_nil, String.append_empty]
  | cons t ss ih =>
    rw [String.intercalate_cons_cons, ih, List.map_cons, String.join_cons, String.append_assoc, String.append_assoc]

/-- A text whose last line is ended. -/
def Ended (s : String) : Prop :=
  s.toList.getLast? = some '\n'

theorem Ended.append (s : String) {t : String} (h : Ended t) : Ended (s ++ t) := by
  unfold Ended at *
  rw [String.toList_append, List.getLast?_append, h]
  rfl

theorem Ended.endLine_eq {s : String} (h : Ended s) : endLine s = s :=
  if_pos h

theorem ended_sections {outputs : List EndpointOutput} (h : ∀ o ∈ outputs, o.declaration = "" ∨ Ended o.declaration)
    {s : String} (hs : Ended s) : Ended (s ++ sections outputs) := by
  unfold sections
  induction outputs generalizing s with
  | nil => simpa using hs
  | cons o outputs ih =>
    rw [List.map_cons, String.join_cons, ← String.append_assoc]
    refine ih (fun u hu => h u (List.mem_cons_of_mem _ hu)) ?_
    unfold declarationSection
    split
    · simpa using hs
    · rename_i hne
      exact ((h o List.mem_cons_self).resolve_left hne).append _ |>.append _

theorem ended_unlines {lines : List String} (h : lines ≠ []) : Ended (unlines lines) := by
  rw [← List.dropLast_concat_getLast h]
  unfold unlines
  rw [List.map_append, String.join_append, List.map_singleton, String.join_cons, String.join_nil, String.append_empty]
  exact (Ended.append _ (by unfold Ended; decide)).append _

theorem ended_sharedTypes : Ended sharedTypes :=
  Ended.append _ (ended_unlines (by simp))

theorem sections_eq (outputs : List EndpointOutput) :
    String.join (((outputs.map (·.declaration)).filter (· != "")).map ("\n" ++ ·)) = sections outputs := by
  unfold sections
  induction outputs with
  | nil => rfl
  | cons o outputs ih =>
    rw [List.map_cons, List.map_cons, String.join_cons, ← ih]
    by_cases h : o.declaration = ""
    · rw [List.filter_cons_of_neg (by simp [h]), declarationSection, if_pos h, String.empty_append]
    · rw [List.filter_cons_of_pos (by simpa using h), declarationSection, if_neg h, List.map_cons, String.join_cons]

/-- The interfaces file is the shared types and the sections of the outputs. -/
theorem interfacesText_eq {outputs : List EndpointOutput}
    (h : ∀ o ∈ outputs, o.declaration = "" ∨ Ended o.declaration) :
    interfacesText outputs = sharedTypes ++ sections outputs := by
  unfold interfacesText
  have hcat : "\n".intercalate ([header, transportDeclaration, resourceTypes] ++
      (outputs.map (·.declaration)).filter (· != "")) = sharedTypes ++ sections outputs := by
    rw [List.cons_append, List.cons_append, List.cons_append, List.nil_append, intercalate_cons, List.map_cons,
      List.map_cons, String.join_cons, String.join_cons, sections_eq, sharedTypes]
    simp only [String.append_assoc]
  rw [hcat, (ended_sections h ended_sharedTypes).endLine_eq]

/-! ## The client file -/

/-- The client file of outputs that all add to it. -/
theorem clientText_eq {outputs : List EndpointOutput} (h : ∀ o ∈ outputs, o.isEmpty = false)
    (serviceName interfacesModule : String) :
    clientText serviceName interfacesModule outputs =
      clientHead serviceName interfacesModule ++ String.join (outputs.map fieldLine) ++ fieldsEnd outputs ++
        constructorLine ++ registrationLines outputs ++ clientTail := by
  have hall : outputs.filter (fun o => !o.isEmpty) = outputs :=
    List.filter_eq_self.2 fun o ho => by rw [h o ho, Bool.not_false]
  unfold clientText
  simp only [hall, fieldLines_eq, String.append_assoc]

theorem registrationLines_append (a b : List EndpointOutput) :
    registrationLines (a ++ b) = registrationLines a ++ registrationLines b := by
  unfold registrationLines
  rw [List.map_append, String.join_append]

/-! ## Outputs of endpoints -/

theorem ended_renderDeclaration (d : Declaration) : Ended d.render := by
  unfold Declaration.render
  exact Ended.append _ (by unfold Ended; decide)

theorem declaration_ofEndpoint (options : EmitOptions) (typed : Bool) (e : Endpoint) :
    (EndpointOutput.ofEndpoint options typed e).declaration = "" ∨
      Ended (EndpointOutput.ofEndpoint options typed e).declaration := by
  cases typed with
  | false => exact .inl rfl
  | true => exact .inr (ended_renderDeclaration _)

end ResourceClient.Artifacts
