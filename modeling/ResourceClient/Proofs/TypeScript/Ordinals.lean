/-
The call parameters that an interface declares are different identifiers: sanitizing makes identifiers, and an ordinal
makes no reserved word of one.
-/
import ResourceClient.Proofs.TypeScript.Names
import ResourceClient.Proofs.Uri.Signature

namespace ResourceClient.TypeScript

open Text

theorem getLast?_reserved_not_digit : ∀ w ∈ reserved, w.toList.getLast?.any Char.isDigit = false := by
  decide +kernel

/-- No reserved word ends with a digit. -/
theorem append_decimal_not_mem_reserved (base : String) (n : Nat) : base ++ decimal n ∉ reserved := by
  intro hmem
  have hne : (decimal n).toList ≠ [] := by
    rw [decimal, String.toList_ofList]
    exact Nat.toDigits_ne_nil
  have hlast : (base ++ decimal n).toList.getLast? = some ((decimal n).toList.getLast hne) := by
    rw [String.toList_append, List.getLast?_append, List.getLast?_eq_some_getLast hne]
    rfl
  have hletter := getLast?_reserved_not_digit _ hmem
  rw [hlast, Option.any_some, isDigit_of_mem_decimal (List.getLast_mem hne)] at hletter
  cases hletter

theorem isIdentifier_append_decimal {base : String} (h : isIdentifier base = true) (n : Nat) :
    isIdentifier (base ++ decimal n) = true := by
  refine isIdentifier_iff.2 ⟨?_, append_decimal_not_mem_reserved base n⟩
  rw [String.toList_append]
  exact isShaped_append (isIdentifier_iff.1 h).1 (all_decimal n)

theorem isIdentifier_callParameters (parameters : List String) :
    ∀ name ∈ callParameters parameters, isIdentifier name = true := by
  refine (numbered_callParameters parameters).forall_mem (fun base hbase => ?_) fun base k h => ?_
  · obtain ⟨parameter, -, rfl⟩ := List.mem_map.1 hbase
    exact isIdentifier_sanitize parameter
  · exact isIdentifier_append_decimal h k

/-- The interface declares one call parameter for each path parameter, in order, told apart by ordinals, and these are
different identifiers. -/
theorem declares_numbered (options : EmitOptions) (e : Endpoint) :
    Declares (renderDeclaration options e) e.name (callParameters e.pathParameters) ∧
    (callParameters e.pathParameters).length = e.pathParameters.length ∧
    Numbered (e.pathParameters.map sanitize) (e.pathParameters.map sanitize) (callParameters e.pathParameters) ∧
    (callParameters e.pathParameters).Nodup ∧
    ∀ name ∈ callParameters e.pathParameters, isIdentifier name = true :=
  have hn := numbered_callParameters e.pathParameters
  ⟨declares_renderDeclaration options e, length_callParameters _, hn, hn.nodup (List.Subset.refl _),
    isIdentifier_callParameters _⟩

/-- A name with an ordinal that is free, one with an ordinal that a later path parameter has, and one that is equal
only when it is made an identifier. -/
example : callParameters ["id", "x-y", "id", "x_y", "id2"] = ["id", "x_y", "id3", "x_y2", "id2"] := by
  decide +kernel

end ResourceClient.TypeScript
