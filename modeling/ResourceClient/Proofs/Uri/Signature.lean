/-
The signature of an endpoint and the URLs it is filled into agree. The interface declares one call
parameter for each placeholder of the template, and binding that many arguments puts each of them into the
place of its placeholder in the clean template, and changes nothing else.
-/
import ResourceClient.Proofs.TypeScript.Parameters
import ResourceClient.Proofs.Uri.Clean
import ResourceClient.Resource

namespace ResourceClient

/-- The text of an interface of some name that is called with some parameters. -/
def TypeScript.Declares (text name : String) (parameters : List String) : Prop :=
  (∀ p ∈ parameters, isShaped p.toList = true) ∧
  ∃ body, text = "export interface " ++ name ++ "<TResult> \x7b\n    (" ++
    ", ".intercalate (parameters.map (· ++ ": string | number")) ++ "): \x7b\n" ++ body

theorem TypeScript.declares_renderDeclaration (options : EmitOptions) (e : Endpoint) :
    Declares (renderDeclaration options e) e.name (callParameters e.pathParameters) := by
  refine ⟨isShaped_callParameters _, ?_⟩
  unfold renderDeclaration Declaration.render Declaration.ofEndpoint
  simp only [String.append_assoc]
  exact ⟨_, rfl⟩

namespace Template

open Text

theorem parameters_slotted {template : String} {names : List (List Char)} (h : Slotted template.toList names) :
    parameters template = names.map String.ofList :=
  parametersOf_slotted h

theorem exists_clean {template : String} {names : List (List Char)} (h : Slotted template.toList names) :
    ∃ parts tail, Woven parts tail ∧ parts.map (·.2) = names ∧ (clean template).toList = weave parts tail := by
  obtain ⟨parts, tail, hw, hnames, hc⟩ := exists_cleanChars h.placed
  refine ⟨parts, tail, hw, hnames, ?_⟩
  rw [clean, String.toList_ofList, hc]

/-- The places that the signature counts are those that the arguments are put into. -/
theorem signature_matches_slots {template : String} {names : List (List Char)}
    (h : Slotted template.toList names) (name : String) (operations : List Operation)
    (options : TypeScript.EmitOptions) :
    parameters template = names.map String.ofList ∧
    ∃ parts tail, parts.map (·.2) = names ∧ Matches (clean template).toList parts tail ∧
      (∃ ps, ps.length = names.length ∧ TypeScript.Declares
        (TypeScript.renderDeclaration options ⟨name, template, parameters template, operations⟩) name ps) ∧
      ∀ args : List String, names.length ≤ args.length →
        ((ResourceFactory.ofEndpoint ⟨name, template, parameters template, operations⟩).bind args).toList =
          (List.zipWith (fun part arg => part.1 ++ arg.toList) parts args).flatten ++ tail := by
  have hp := parameters_slotted h
  obtain ⟨parts, tail, hw, hnames, hc⟩ := exists_clean h
  have hlen : parts.length = names.length := by rw [← hnames, List.length_map]
  refine ⟨hp, parts, tail, hnames, ?_, ⟨_, ?_, TypeScript.declares_renderDeclaration options _⟩, ?_⟩
  · rw [hc]
    exact hw.matches
  · rw [TypeScript.length_callParameters, hp, List.length_map]
  · intro args hargs
    show (fill (clean template) args).toList = _
    rw [fill, String.toList_ofList, hc, fillPieces_weave hw (by rw [hlen, List.length_map]; exact hargs),
      List.zipWith_map_right]

/-- A constraint that has a slash in it, blanks around a name, and doubled slashes. -/
theorem signature_matches_slots_constrained :
    Slotted "/a// { id : [0-9]/x}/{k}s".toList ["id".toList, "k".toList] ∧
    parameters "/a// { id : [0-9]/x}/{k}s" = ["id", "k"] ∧
    ∃ parts tail, parts.map (·.2) = ["id".toList, "k".toList] ∧
      Matches (clean "/a// { id : [0-9]/x}/{k}s").toList parts tail := by
  have hid : IsName "id".toList := ⟨by decide, List.all_eq_true.1 (by decide)⟩
  have hk : IsName "k".toList := ⟨by decide, List.all_eq_true.1 (by decide)⟩
  have hblank : Blank " ".toList := List.all_eq_true.1 (by decide)
  have hfree : BraceFree " [0-9]/x".toList := braceFree_of_all (by decide)
  have h0 : Slotted "/a// ".toList [] := .text (braceFree_of_all (by decide))
  have h1 : Slotted "/a// { id : [0-9]/x}/".toList ["id".toList] :=
    h0.slot (p := "{ id : [0-9]/x}".toList) (t := "/".toList) (.inr ⟨"/a/".toList, " ".toList, rfl, hblank⟩)
      (.constrained hid hblank hblank hfree)
      (braceFree_of_all (by decide))
  have h : Slotted "/a// { id : [0-9]/x}/{k}s".toList ["id".toList, "k".toList] :=
    h1.slot (p := "{k}".toList) (t := "s".toList)
      (.inr ⟨"/a// { id : [0-9]/x}".toList, [], rfl, List.all_eq_true.1 (by decide)⟩) (.plain hk)
      (braceFree_of_all (by decide))
  obtain ⟨hp, parts, tail, hnames, hm, -⟩ := signature_matches_slots h "a" [] {}
  refine ⟨h, ?_, parts, tail, hnames, hm⟩
  rw [hp]
  rfl

end Template

end ResourceClient
