/-
The methods of an interface. There is one for each verb that operations have, in the order in which the verbs first
occur, and it takes the data of the first operation with its verb. The resources that the client makes have all of
these methods.
-/
import ResourceClient.Proofs.Endpoint.Extract
import ResourceClient.Proofs.TypeScript.DeclarationText
import Mathlib

namespace ResourceClient.TypeScript

open Text

/-! ## Verbs -/

/-- The verbs that operations have in any letter case, in the order in which they first occur. -/
def spokenVerbs (operations : List Operation) : List Verb :=
  (operations.filterMap fun o => Verb.all.find? fun v => v.name == fold o.verb).eraseDups

theorem mem_spokenVerbs {operations : List Operation} {v : Verb} :
    v ∈ spokenVerbs operations ↔ ∃ o ∈ operations, fold o.verb = v.name := by
  rw [spokenVerbs, List.mem_eraseDups, ← funext verb?_eq, List.mem_filterMap]
  exact exists_congr fun o => and_congr_right fun _ => verb?_eq_some

theorem proxyMethod_injective : Function.Injective Verb.proxyMethod := by
  intro v w h
  cases v <;> cases w <;> first | rfl | simp [Verb.proxyMethod] at h

/-! ## First occurrences -/

section

variable {α β : Type} [BEq α] [LawfulBEq α] [BEq β] [LawfulBEq β]

theorem nodup_eraseDups (as : List α) : as.eraseDups.Nodup := by
  cases as with
  | nil => exact List.nodup_nil
  | cons a as =>
    rw [List.eraseDups_cons, List.nodup_cons]
    exact ⟨by simp, nodup_eraseDups _⟩
termination_by as.length
decreasing_by exact Nat.lt_succ_of_le (List.length_filter_le ..)

theorem eraseDups_map {f : α → β} (hf : Function.Injective f) (as : List α) :
    (as.map f).eraseDups = as.eraseDups.map f := by
  cases as with
  | nil => rfl
  | cons a as =>
    have hrest : ((fun b => !b == f a) ∘ f) = fun b => !b == a := by
      funext b
      simp [hf.eq_iff]
    rw [List.map_cons, List.eraseDups_cons, List.eraseDups_cons, List.map_cons, List.filter_map, hrest,
      eraseDups_map hf]
termination_by as.length
decreasing_by exact Nat.lt_succ_of_le (List.length_filter_le ..)

end

theorem map_name_firstOfName (seen : List String) (ms : List Method) :
    (firstOfName seen ms).map Method.name = ((ms.map Method.name).filter (!seen.contains ·)).eraseDups := by
  induction ms generalizing seen with
  | nil => rfl
  | cons k ms ih =>
    unfold firstOfName
    by_cases hk : seen.contains k.name = true
    · rw [if_pos hk, ih, List.map_cons, List.filter_cons_of_neg (by simpa using hk)]
    · rw [if_neg hk, List.map_cons, ih, List.map_cons, List.filter_cons_of_pos (by simpa using hk),
        List.eraseDups_cons, List.filter_filter]
      congr 3
      funext name
      rw [List.contains_cons, Bool.not_or]

/-- A method that is kept is the first of its name. -/
theorem find?_of_mem_firstOfName {seen : List String} {ms : List Method} {m : Method} (h : m ∈ firstOfName seen ms) :
    m.name ∉ seen ∧ ms.find? (·.name == m.name) = some m := by
  induction ms generalizing seen with
  | nil => cases h
  | cons k ms ih =>
    unfold firstOfName at h
    by_cases hk : seen.contains k.name = true
    · rw [if_pos hk] at h
      obtain ⟨hm, hfind⟩ := ih h
      refine ⟨hm, ?_⟩
      rw [List.find?_cons_of_neg, hfind]
      rintro heq
      exact hm (beq_iff_eq.1 heq ▸ List.contains_iff_mem.1 hk)
    · rw [if_neg hk] at h
      have hseen : k.name ∉ seen := fun hmem => hk (List.contains_iff_mem.2 hmem)
      rcases List.mem_cons.1 h with rfl | h
      · exact ⟨hseen, List.find?_cons_of_pos (beq_self_eq_true _)⟩
      · obtain ⟨hm, hfind⟩ := ih h
        rw [List.mem_cons, not_or] at hm
        exact ⟨hm.2, by rw [List.find?_cons_of_neg (by simpa using Ne.symm hm.1), hfind]⟩

/-! ## Methods -/

/-- The field for an argument of an operation with a verb. -/
def fieldFor (options : EmitOptions) (v : Verb) (a : Argument) : Field where
  name := a.name
  optional := a.required != some true || (v == .patch && options.patchFieldsOptional)
  type := a.type.typescript

/-- Whether a method is the one that some operations have for a verb: it has the name that resources call it by, and
its fields are the data of the first operation with the verb. -/
structure Method.IsFor (options : EmitOptions) (operations : List Operation) (m : Method) (v : Verb) : Prop where
  name : m.name = v.proxyMethod
  fields : ∃ o, operations.find? (fun o => fold o.verb == v.name) = some o ∧
    m.fields = o.dataArguments.map (fieldFor options v)

theorem ofOperation?_eq (options : EmitOptions) (o : Operation) :
    Method.ofOperation? options o =
      o.verb?.map fun v => ⟨v.proxyMethod, o.dataArguments.map (fieldFor options v)⟩ := by
  unfold Method.ofOperation?
  cases hv : o.verb? with
  | none => rfl
  | some v =>
    have hfield : Field.ofArgument (options.patchFieldsOptional && v == .patch) = fieldFor options v := by
      funext ⟨name, type, required⟩
      unfold Field.ofArgument fieldFor Argument.isRequired
      rw [Bool.and_comm, Bool.or_comm]
      cases required with
      | none => rfl
      | some r => cases r <;> rfl
    rw [Option.map_some, Option.map_some, methodName_of_verb? hv, hfield]

/-- The names of the methods are those of the verbs, in order. -/
theorem map_name_methods (options : EmitOptions) (e : Endpoint) :
    (Declaration.ofEndpoint options e).methods.map Method.name =
      (spokenVerbs e.operations).map Verb.proxyMethod := by
  have hall : (e.operations.filterMap (Method.ofOperation? options)).map Method.name =
      (e.operations.filterMap Operation.verb?).map Verb.proxyMethod := by
    rw [List.map_filterMap, List.map_filterMap]
    congr 1
    funext o
    rw [ofOperation?_eq, Option.map_map]
    rfl
  have hseen : (fun name : String => !([] : List String).contains name) = fun _ => true := rfl
  show (firstOfName [] _).map Method.name = _
  rw [map_name_firstOfName, hall, hseen, List.filter_true, eraseDups_map proxyMethod_injective, spokenVerbs,
    funext verb?_eq]

theorem isFor_of_mem_methods {options : EmitOptions} {e : Endpoint} {m : Method}
    (hm : m ∈ (Declaration.ofEndpoint options e).methods) {v : Verb} (hname : m.name = v.proxyMethod) :
    m.IsFor options e.operations v := by
  have hfind := (find?_of_mem_firstOfName hm).2
  rw [List.find?_filterMap] at hfind
  obtain ⟨o, ho, hmethod⟩ := Option.bind_eq_some_iff.1 hfind
  have hpick : (fun o => (Method.ofOperation? options o).any (·.name == m.name)) =
      fun o : Operation => fold o.verb == v.name := by
    funext o
    rw [ofOperation?_eq, Option.any_map, hname, Bool.eq_iff_iff, beq_iff_eq, ← verb?_eq_some]
    cases o.verb? with
    | none => simp
    | some w => simp [proxyMethod_injective.eq_iff]
  rw [hpick] at ho
  rw [ofOperation?_eq] at hmethod
  obtain ⟨w, -, rfl⟩ := Option.map_eq_some_iff.1 hmethod
  obtain rfl := proxyMethod_injective hname
  exact ⟨rfl, o, ho, rfl⟩

/-- The methods are those of the verbs, in order. -/
theorem isFor_methods (options : EmitOptions) (e : Endpoint) :
    List.Forall₂ (Method.IsFor options e.operations) (Declaration.ofEndpoint options e).methods
      (spokenVerbs e.operations) := by
  have hnames := map_name_methods options e
  rw [← List.forall₂_eq_eq_eq, List.forall₂_map_left_iff, List.forall₂_map_right_iff] at hnames
  have hmembers : ∀ m ∈ (Declaration.ofEndpoint options e).methods, m ∈ (Declaration.ofEndpoint options e).methods :=
    fun _ hm => hm
  exact ((List.forall₂_and_left _ _).2 ⟨hmembers, hnames⟩).imp fun m v h => isFor_of_mem_methods h.1 h.2

/-! ## Resources -/

/-- Reads the line of a member: its indentation, the name at its beginning, and what follows to the end of the line. -/
def readMember? (indentation : Nat) (cs : List Char) : Option (String × List Char) := do
  let cs ← strip? (List.replicate indentation ' ') cs
  let (name, cs) := readName cs
  match cs.dropWhile (· != '\n') with
  | [] => none
  | _ :: rest => return (name, rest)

/-- The names of the members of a block, which stand on lines of one indentation behind the line that opens it. -/
def blockMembers (opening : String) (indentation : Nat) (text : String) : List String :=
  (after? opening.toList text.toList).elim [] fun cs => (readMany (readMember? indentation) cs).1

/-- The members of the object that the client makes for a resource. -/
def createdMembers : List String :=
  blockMembers "        return \x7b\n" 12 sharedFunctions

/-- The members that the type of resources declares. -/
def resourceMembers : List String :=
  blockMembers "export interface TaffyResource<TResult> \x7b\n" 4 resourceTypes

/-- A block with a line for each verb and one for the URL has members for these. -/
theorem blockMembers_unlines {opening url : List Char} {indentation : Nat} {before after : List (List Char)}
    {line : Verb → String} (hopening : after? opening (before.flatMap (· ++ ['\n'])) = some [])
    (hline : ∀ v, ReadsBack (readMember? indentation) v.proxyMethod (line v ++ "\n").toList)
    (hurl : ReadsBack (readMember? indentation) "url" (url ++ ['\n']))
    (hafter : readMember? indentation (after.flatMap (· ++ ['\n'])) = none) :
    blockMembers (String.ofList opening) indentation
        (unlines (before.map String.ofList ++ Verb.all.map line ++ (url :: after).map String.ofList)) =
      Verb.all.map Verb.proxyMethod ++ ["url"] := by
  let rest := after.flatMap (· ++ ['\n'])
  have hlines : readMany (readMember? indentation)
      (Verb.all.flatMap (fun v => (line v ++ "\n").toList) ++ (url ++ ['\n'] ++ rest)) =
        (Verb.all.map Verb.proxyMethod ++ ["url"], rest) := by
    rw [readMany_flatMap (fun v _ => hline v) hafter, readMany_append hurl hafter, readMany_of_none hafter]
  have htext : (unlines (before.map String.ofList ++ Verb.all.map line ++ (url :: after).map String.ofList)).toList =
      before.flatMap (· ++ ['\n']) ++
        (Verb.all.flatMap (fun v => (line v ++ "\n").toList) ++ (url ++ ['\n'] ++ rest)) := by
    rw [unlines_append, unlines_append, unlines_ofList, unlines_ofList, String.toList_append, String.toList_append,
      String.toList_ofList, String.toList_ofList, List.flatMap_cons, List.append_assoc]
    unfold unlines
    rw [String.toList_join, List.flatMap_map, List.flatMap_map]
  unfold blockMembers
  rw [htext, String.toList_ofList, after?_append hopening]
  exact congrArg Prod.fst hlines

theorem readsBack_ofList {name : String} {indentation : Nat} {cs : List Char}
    (h : ∀ rest, readMember? indentation (cs ++ rest) = some (name, rest)) :
    ReadsBack (readMember? indentation) name (String.ofList cs).toList := by
  rw [String.toList_ofList]
  exact h

theorem readsBack_resourceMethod (v : Verb) :
    ReadsBack (readMember? 4) v.proxyMethod (resourceMethod v ++ "\n").toList := by
  cases v <;> unfold resourceMethod Verb.proxyMethod <;> repeat rw [← String.ofList_append]
  all_goals exact readsBack_ofList fun rest => by rfl

set_option maxRecDepth 4000 in
theorem readsBack_createdMethod (v : Verb) :
    ReadsBack (readMember? 12) v.proxyMethod (createdMethod v ++ "\n").toList := by
  cases v <;> unfold createdMethod Verb.proxyMethod Verb.name Verb.sendsBody <;>
    simp only [Bool.false_eq_true, if_true, if_false, -String.reduceAppend] <;>
    repeat rw [← String.ofList_append]
  all_goals exact readsBack_ofList fun rest => by rfl

theorem resourceMembers_eq : resourceMembers = Verb.all.map Verb.proxyMethod ++ ["url"] := by
  unfold resourceMembers resourceTypes
  rw [← String.ofList_append]
  exact @blockMembers_unlines _ _ _ [_] [_, _, _] _ (by rfl) readsBack_resourceMethod (fun rest => by rfl) (by rfl)

set_option maxRecDepth 4000 in
theorem createdMembers_eq : createdMembers = Verb.all.map Verb.proxyMethod ++ ["url"] := by
  unfold createdMembers sharedFunctions
  exact @blockMembers_unlines _ _ _ [_, _, _, _, _, _, _]
    [_, _, _, _, _, _, _, _, _, _, _, _, _, _, _, _, _, _, _, _] _ (by rfl) readsBack_createdMethod
    (fun rest => by rfl) (by rfl)

/-! ## Interfaces -/

/-- An interface declares one method for each verb that an operation has, called as on the resources that the client
makes, and with the data of the first operation with the verb; no field of an endpoint that is read from a component is
a path parameter. -/
theorem renderDeclaration_methods (options : EmitOptions) (e : Endpoint) :
    ∃ body methods, renderDeclaration options e = "export interface " ++ e.name ++ body ∧
      readBody? body.toList = some (callParameters e.pathParameters, methods) ∧
      (methods.map Method.name).Nodup ∧
      List.Forall₂ (Method.IsFor options e.operations) methods (spokenVerbs e.operations) ∧
      (∀ o ∈ e.operations, ∀ v : Verb, fold o.verb = v.name →
        o.methodName = v.proxyMethod ∧ o.methodName ∈ methods.map Method.name) ∧
      (∀ m ∈ methods, m.name ∈ createdMembers ∧ m.name ∈ resourceMembers) ∧
      ∀ name forest, Endpoint.ofForest name forest = .ok (some e) →
        ∀ m ∈ methods, ∀ f ∈ m.fields, ∀ p ∈ e.pathParameters, fold f.name ≠ fold p := by
  let d := Declaration.ofEndpoint options e
  have hnames : d.methods.map Method.name = (spokenVerbs e.operations).map Verb.proxyMethod :=
    map_name_methods options e
  have hverb : ∀ m ∈ d.methods, ∃ v : Verb, m.name = v.proxyMethod := by
    intro m hm
    have hmem : m.name ∈ d.methods.map Method.name := List.mem_map_of_mem hm
    rw [hnames] at hmem
    obtain ⟨v, -, hv⟩ := List.mem_map.1 hmem
    exact ⟨v, hv.symm⟩
  refine ⟨d.body, d.methods, d.render_eq, readBody?_body (isShaped_callParameters e.pathParameters)
    fun _ => isSafe_of_mem_methods, ?_, isFor_methods options e, ?_, ?_, ?_⟩
  · rw [hnames]
    exact List.Nodup.map proxyMethod_injective (nodup_eraseDups _)
  · intro o ho v hv
    rw [hnames, methodName_of_verb? (verb?_eq_some.2 hv)]
    exact ⟨rfl, List.mem_map_of_mem (mem_spokenVerbs.2 ⟨o, ho, hv⟩)⟩
  · intro m hm
    obtain ⟨v, hv⟩ := hverb m hm
    have hmember : v.proxyMethod ∈ Verb.all.map Verb.proxyMethod ++ ["url"] := by
      cases v <;> decide
    rw [createdMembers_eq, resourceMembers_eq, hv]
    exact ⟨hmember, hmember⟩
  · intro name forest he m hm f hf p hp
    obtain ⟨v, hv⟩ := hverb m hm
    obtain ⟨o, ho, hfields⟩ := (isFor_of_mem_methods hm hv).fields
    rw [hfields] at hf
    obtain ⟨a, ha, rfl⟩ := List.mem_map.1 hf
    have hpath := Endpoint.isPathParameter_of_ofForest he (List.mem_of_find?_eq_some ho) ha
    intro hsame
    exact List.any_eq_false.1 hpath p hp (sameFolded_iff.2 hsame.symm)

/-- Two functions of one verb in different letter cases, one of no verb, and an argument that the path supplies. -/
theorem renderDeclaration_methods_twice :
    let forest : Markup.Forest := [⟨"cfcomponent", .ofList [("taffy_uri", "/items/{id}")],
      [⟨"cffunction", .ofList [("name", "PATCH"), ("access", "public")],
          [⟨"cfargument", .ofList [("name", "ID"), ("type", "numeric")], []⟩,
           ⟨"cfargument", .ofList [("name", "q"), ("type", "date"), ("required", "yes")], []⟩]⟩,
        ⟨"cffunction", .ofList [("name", "list"), ("access", "public")], []⟩,
        ⟨"cffunction", .ofList [("name", "patch"), ("access", "public")], []⟩]⟩]
    let e : Endpoint := ⟨"items", "/items/{id}", ["id"],
      [⟨"patch", [⟨"ID", .numeric, none⟩], [⟨"q", .date, some true⟩]⟩, ⟨"list", [], []⟩, ⟨"patch", [], []⟩]⟩
    Endpoint.ofForest "items" forest = .ok (some e) ∧
    ∃ body m, renderDeclaration {} e = "export interface " ++ e.name ++ body ∧
      readBody? body.toList = some (["id"], [m]) ∧
      m.name = "doPatch" ∧ m.fields = [⟨"q", true, "string"⟩] ∧ m.name ∈ createdMembers ∧ m.name ∈ resourceMembers ∧
      ∀ f ∈ m.fields, fold f.name ≠ fold "id" := by
  intro forest e
  have he : Endpoint.ofForest "items" forest = .ok (some e) := by cbv
  have hverbs : spokenVerbs e.operations = [.patch] := by decide
  have hfirst : e.operations.find? (fun o => fold o.verb == Verb.patch.name) = e.operations.head? := by decide
  obtain ⟨body, methods, htext, hread, -, hfor, -, hmembers, hfields⟩ := renderDeclaration_methods {} e
  rw [hverbs] at hfor
  cases hfor with
  | @cons m v ms vs hm hrest =>
    cases hrest
    obtain ⟨o, ho, hdata⟩ := hm.fields
    rw [hfirst] at ho
    cases ho
    exact ⟨he, body, m, htext, hread, hm.name, hdata, (hmembers m (by simp)).1, (hmembers m (by simp)).2,
      fun f hf => hfields "items" forest he m (by simp) f hf "id" (by simp [e])⟩

end ResourceClient.TypeScript
