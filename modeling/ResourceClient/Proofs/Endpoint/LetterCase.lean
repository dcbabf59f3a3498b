/-
The letter case that an endpoint does not depend on. Free values in small letters give the same endpoint, or the
same refusal with the type that it quotes in small letters.
-/
import ResourceClient.Endpoint.Extract
import ResourceClient.Proofs.Markup.FreeValues
import ResourceClient.Proofs.Text.LetterCase

namespace ResourceClient

open Text Markup

/-- A refusal with the type that it quotes in small letters. -/
def ExtractError.folded : ExtractError → ExtractError
  | .missingComponent => .missingComponent
  | .missingType argument => .missingType argument
  | .unknownType verb argument type => .unknownType verb argument (fold type)

theorem ArgumentType.ofName?_fold (s : String) : ArgumentType.ofName? (fold s) = ArgumentType.ofName? s := by
  unfold ArgumentType.ofName?
  simp only [sameFolded_fold]

namespace Endpoint

/-! ## Attributes -/

section

variable {e : Element} {key : String}

theorem nonblankAttribute?_folded_of_free (h : isFreeKey e.name key = true) :
    nonblankAttribute? e.folded key = (nonblankAttribute? e key).map fold := by
  unfold nonblankAttribute?
  rw [Element.attribute?_folded_of_free h]
  cases e.attribute? key with
  | none => rfl
  | some value => rw [Option.map_some, Option.bind_some, Option.bind_some, nonblank?_fold]

theorem nonblankAttribute?_folded_of_not_free (h : isFreeKey e.name key = false) :
    nonblankAttribute? e.folded key = nonblankAttribute? e key := by
  unfold nonblankAttribute?
  rw [Element.attribute?_folded_of_not_free h]

theorem uri?_folded (e : Element) : uri? e.folded = uri? e := by
  have hkey : ∀ key, isFreeKey e.name key = false → nonblankAttribute? e.folded key = nonblankAttribute? e key :=
    fun _ => nonblankAttribute?_folded_of_not_free
  unfold uri? uriKeys
  simp only [List.findSome?_cons, List.findSome?_nil, hkey "taffy_uri" (by simp [isFreeKey]),
    hkey "taffy:uri" (by simp [isFreeKey])]

theorem isPublic_folded (e : Element) : isPublic e.folded = isPublic e := by
  have hfree : isFreeKey e.name "access" = true := by simp [isFreeKey]
  unfold isPublic
  rw [Element.attribute?_folded_of_free hfree, Option.any_map]
  refine congrArg (Option.any · _) (funext fun access => ?_)
  show sameFolded (trimmed (fold access)) "public" = _
  rw [trimmed_fold, sameFolded_comm, sameFolded_fold, sameFolded_comm]

theorem requirement?_fold (text : String) : requirement? (fold text) = requirement? text := by
  unfold requirement?
  rw [trimmed_fold, fold_fold]

end

/-! ## Arguments and operations -/

theorem argument?_folded (verb : String) {e : Element} (h : e.name = "cfargument") :
    argument? verb e.folded = (argument? verb e).mapError ExtractError.folded := by
  have hname : isFreeKey e.name "name" = false := by rw [h]; rfl
  have htype : isFreeKey e.name "type" = true := by rw [h]; rfl
  have hrequired : isFreeKey e.name "required" = true := by rw [h]; rfl
  unfold argument?
  rw [nonblankAttribute?_folded_of_not_free hname, Element.attribute?_folded_of_free htype,
    Element.attribute?_folded_of_free hrequired]
  cases nonblankAttribute? e "name" with
  | none => rfl
  | some name =>
    cases e.attribute? "type" with
    | none => rfl
    | some type =>
      have hrequirement : ((e.attribute? "required").map fold).bind requirement? =
          (e.attribute? "required").bind requirement? := by
        cases e.attribute? "required" with
        | none => rfl
        | some text => rw [Option.map_some, Option.bind_some, Option.bind_some, requirement?_fold]
      simp only [Option.map_some, trimmed_fold, ArgumentType.ofName?_fold, hrequirement]
      cases ArgumentType.ofName? (trimmed type) <;> rfl

/-- What is collected, or the error that ends it, follows from the members. -/
theorem collect_mapError {α β γ ε ε' : Type} {f : α → Except ε (Option β)} {g : γ → Except ε' (Option β)} {k : ε → ε'}
    {m : α → γ} {as : List α} (h : ∀ a ∈ as, g (m a) = (f a).mapError k) :
    collect g (as.map m) = (collect f as).mapError k := by
  induction as with
  | nil => rfl
  | cons a as ih =>
    have ih := ih fun a' ha' => h a' (List.mem_cons_of_mem _ ha')
    rw [List.map_cons, collect, collect, h a List.mem_cons_self]
    cases f a with
    | error e => rfl
    | ok found =>
      cases found with
      | none => exact ih
      | some b =>
        show (collect g (as.map m)).map _ = ((collect f as).map _).mapError k
        rw [ih]
        cases collect f as <;> rfl

theorem name_of_mem_childrenNamed {e child : Element} {name : String} (h : child ∈ e.childrenNamed name) :
    child.name = name :=
  eq_of_beq (List.mem_filter.1 h).2

theorem childrenNamed_folded (e : Element) (name : String) :
    e.folded.childrenNamed name = (e.childrenNamed name).map Element.folded :=
  childrenNamed_mapAttributes _ e name

theorem operation?_folded (parameters : List String) {function : Element} (h : function.name = "cffunction") :
    operation? parameters function.folded = (operation? parameters function).mapError ExtractError.folded := by
  have hname : isFreeKey function.name "name" = true := by rw [h]; rfl
  unfold operation?
  rw [isPublic_folded, nonblankAttribute?_folded_of_free hname]
  split
  · cases nonblankAttribute? function "name" with
    | none => rfl
    | some name =>
      have hcollect := collect_mapError (m := Element.folded) fun e he =>
        argument?_folded (lower name) (name_of_mem_childrenNamed (e := function) he)
      simp only [Option.map_some, lower_fold, childrenNamed_folded, hcollect]
      cases collect (argument? (lower name)) (function.childrenNamed "cfargument") <;> rfl
  · rfl

/-! ## Components -/

theorem ofComponent_folded (name : String) (component : Element) :
    ofComponent name component.folded = (ofComponent name component).mapError ExtractError.folded := by
  unfold ofComponent
  rw [uri?_folded]
  cases uri? component with
  | none => rfl
  | some uri =>
    have hcollect := collect_mapError (m := Element.folded) fun e he =>
      operation?_folded (Template.parameters uri) (name_of_mem_childrenNamed (e := component) he)
    simp only [childrenNamed_folded, hcollect]
    cases collect (operation? (Template.parameters uri)) (component.childrenNamed "cffunction") <;> rfl

theorem ofForest_folded (name : String) (forest : Forest) :
    ofForest name (foldedForest forest) = (ofForest name forest).mapError ExtractError.folded := by
  unfold ofForest foldedForest
  rw [find?_mapForest]
  cases find? forest "cfcomponent" with
  | none => rfl
  | some component => exact ofComponent_folded name component

end Endpoint

end ResourceClient
