/-
The endpoint of a forest. It has the name that was asked for, and the operations that the functions of a component
declare; an argument of theirs that is a path parameter is none of the data.
-/
import ResourceClient.Endpoint.Extract

namespace ResourceClient.Endpoint

open Markup

theorem exists_of_map_eq_ok {α β ε : Type} {f : α → β} {x : Except ε α} {b : β} (h : x.map f = .ok b) :
    ∃ a, x = .ok a ∧ f a = b := by
  cases x with
  | error e => cases h
  | ok a => exact ⟨a, rfl, Except.ok.inj h⟩

theorem exists_of_mem_collect {α β ε : Type} {f : α → Except ε (Option β)} {as : List α} {bs : List β}
    (h : collect f as = .ok bs) {b : β} (hb : b ∈ bs) : ∃ a ∈ as, f a = .ok (some b) := by
  induction as generalizing bs with
  | nil =>
    cases h
    cases hb
  | cons a as ih =>
    unfold collect at h
    split at h
    · cases h
    · obtain ⟨c, hc, hf⟩ := ih h hb
      exact ⟨c, List.mem_cons_of_mem _ hc, hf⟩
    · rename_i b' hf
      obtain ⟨more, hrest, rfl⟩ := exists_of_map_eq_ok h
      rcases List.mem_cons.1 hb with rfl | hb
      · exact ⟨a, List.mem_cons_self, hf⟩
      · obtain ⟨c, hc, hf⟩ := ih hrest hb
        exact ⟨c, List.mem_cons_of_mem _ hc, hf⟩

variable {name : String} {forest : Forest} {e : Endpoint}

/-- An endpoint is one of a component of the forest. -/
theorem exists_of_ofForest (h : ofForest name forest = .ok (some e)) :
    ∃ component uri operations, uri? component = some uri ∧
      collect (operation? (Template.parameters uri)) (component.childrenNamed "cffunction") = .ok operations ∧
      e = ⟨name, uri, Template.parameters uri, operations⟩ := by
  unfold ofForest at h
  split at h
  · cases h
  · rename_i component _
    unfold ofComponent at h
    split at h
    · cases h
    · rename_i uri huri
      dsimp only at h
      obtain ⟨operations, hoperations, he⟩ := exists_of_map_eq_ok h
      exact ⟨component, uri, operations, huri, hoperations, (Option.some.inj he).symm⟩

theorem name_of_ofForest (h : ofForest name forest = .ok (some e)) : e.name = name := by
  obtain ⟨component, uri, operations, -, -, rfl⟩ := exists_of_ofForest h
  rfl

theorem isPathParameter_of_operation? {parameters : List String} {function : Element} {o : Operation}
    (h : operation? parameters function = .ok (some o)) {a : Argument} (ha : a ∈ o.dataArguments) :
    isPathParameter parameters a.name = false := by
  unfold operation? at h
  split at h
  · split at h
    · cases h
    · dsimp only at h
      obtain ⟨arguments, -, ho⟩ := exists_of_map_eq_ok h
      cases ho
      simpa using (List.mem_filter.1 ha).2
  · cases h

/-- The arguments that the path supplies are no data. -/
theorem isPathParameter_of_ofForest (h : ofForest name forest = .ok (some e)) {o : Operation} (ho : o ∈ e.operations)
    {a : Argument} (ha : a ∈ o.dataArguments) : isPathParameter e.pathParameters a.name = false := by
  obtain ⟨component, uri, operations, -, hoperations, rfl⟩ := exists_of_ofForest h
  obtain ⟨function, -, hf⟩ := exists_of_mem_collect hoperations ho
  exact isPathParameter_of_operation? hf ha

end ResourceClient.Endpoint
