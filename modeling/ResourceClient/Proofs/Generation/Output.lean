/-
What the output of a source can be: that of an endpoint of the source's name, or none. Only an endpoint
makes an output that adds to the client, and its declaration is missing just when it is not asked for.
-/
import ResourceClient.Generation.Output
import ResourceClient.Proofs.Endpoint.Extract

namespace ResourceClient

namespace EndpointOutput

variable {options : TypeScript.EmitOptions} {typed : Bool} {name source : String} {o : EndpointOutput}

/-- An output is that of an endpoint of the given name, or has nothing but the name. -/
theorem of_generateUnit (h : generateUnit options typed name source = .ok o) :
    o = { name } ∨ ∃ e : Endpoint, e.name = name ∧ o = ofEndpoint options typed e := by
  unfold generateUnit at h
  split at h
  · cases h
  · split at h
    · cases h
    · cases h
      exact .inl rfl
    · rename_i e he
      cases h
      exact .inr ⟨e, Endpoint.name_of_ofForest he, rfl⟩

theorem renderRegistration_ne_empty (e : Endpoint) : TypeScript.renderRegistration e ≠ "" := by
  intro h
  unfold TypeScript.renderRegistration at h
  exact absurd (String.append_eq_empty_iff.1 h).2 (by decide)

theorem renderDeclaration_ne_empty (d : TypeScript.Declaration) : d.render ≠ "" := by
  intro h
  unfold TypeScript.Declaration.render at h
  exact absurd (String.append_eq_empty_iff.1 h).2 (by decide)

theorem isEmpty_ofEndpoint (e : Endpoint) : (ofEndpoint options typed e).isEmpty = false := by
  show (TypeScript.renderRegistration e == "") = false
  rw [beq_eq_false_iff_ne]
  exact renderRegistration_ne_empty e

theorem name_of_generateUnit (h : generateUnit options typed name source = .ok o) : o.name = name := by
  rcases of_generateUnit h with rfl | ⟨e, he, rfl⟩
  · rfl
  · exact he

/-- An output that adds to the client lacks a declaration iff none was asked for. -/
theorem declaration_of_generateUnit (h : generateUnit options typed name source = .ok o)
    (hne : o.isEmpty = false) : (o.declaration == "") = !typed := by
  rcases of_generateUnit h with rfl | ⟨e, -, rfl⟩
  · cases hne
  · cases typed
    · rfl
    · exact beq_eq_false_iff_ne.2 (renderDeclaration_ne_empty _)

end EndpointOutput

end ResourceClient
