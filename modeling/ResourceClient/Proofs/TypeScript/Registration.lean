/-
The registration of an endpoint and the resource factory of the same endpoint: the line that makes the one holds
a literal of the template of the other.
-/
import ResourceClient.Proofs.TypeScript.Lines
import ResourceClient.Proofs.TypeScript.Names
import ResourceClient.Proofs.Uri.Normal
import ResourceClient.Resource
import ResourceClient.TypeScript.Member

namespace ResourceClient.TypeScript

open Text

variable {e : Endpoint}

theorem isLine_renderRegistration (h : isShaped e.name.toList = true) : IsLine (renderRegistration e) := by
  unfold renderRegistration
  simp only [isLine_append]
  exact ⟨⟨⟨⟨by decide, isLine_of_isShaped h⟩, by decide⟩, isLine_encode _⟩, by decide⟩

/-- The line that registers an endpoint holds, as a literal, the template of the endpoint's factory. A factory
that is made from the template in the literal is the same one, and so gives the same URL for all arguments. -/
structure Registers (e : Endpoint) (literal template : String) : Prop where
  line : IsLine (renderRegistration e)
  text : renderRegistration e = "this." ++ e.name ++ " = create<TResult>(transport, " ++ literal ++ ");"
  isLiteral : Quoted.IsLiteral literal template
  shared : template = (ResourceFactory.ofEndpoint e).template
  again : ResourceFactory.ofTemplate template = ResourceFactory.ofEndpoint e
  bind : ∀ args, (ResourceFactory.ofTemplate template).bind args = (ResourceFactory.ofEndpoint e).bind args

/-- Whatever the URI of an endpoint is, its registration has the template of its factory. -/
theorem exists_registers (h : isIdentifier e.name = true) : ∃ literal template, Registers e literal template := by
  have hagain : ResourceFactory.ofTemplate (Template.clean e.uriTemplate) = ResourceFactory.ofEndpoint e :=
    congrArg ResourceFactory.mk (Template.clean_clean e.uriTemplate)
  refine ⟨Quoted.encode (Template.clean e.uriTemplate), Template.clean e.uriTemplate, ?_⟩
  exact {
    line := isLine_renderRegistration (isIdentifier_iff.1 h).1
    text := rfl
    isLiteral := Quoted.isLiteral_encode (Template.isClean_clean e.uriTemplate).printable
    shared := rfl
    again := hagain
    bind := fun args => by rw [hagain] }

/-- A URI with a constraint, quotes, a backslash, a line break and a brace too many. -/
theorem exists_registers_notes :
    let e : Endpoint := ⟨"notes", "//notes\n/\x7bid:[0-9]+\x7d/\"a\\b\"\x7d", ["id"], []⟩
    isIdentifier e.name = true ∧ ∃ literal template, Registers e literal template := by
  intro e
  have h : isIdentifier e.name = true := by decide +kernel
  exact ⟨h, exists_registers h⟩

example : renderRegistration ⟨"notes", "//notes\n/\x7bid:[0-9]+\x7d/\"a\\b\"\x7d", ["id"], []⟩ =
    "this.notes = create<TResult>(transport, \"/notes/\x7bid\x7d/\\\"a\\\\b\\\"\x7d\");" := by decide +kernel

end ResourceClient.TypeScript
