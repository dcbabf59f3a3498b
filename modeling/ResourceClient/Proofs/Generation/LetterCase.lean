/-
Letter case that does not matter. Two sources that differ in the case of tag names, of attribute names and of free
values only have one output, or fail for one reason.
-/
import ResourceClient.Proofs.Endpoint.LetterCase
import ResourceClient.Proofs.Generation.Choices
import ResourceClient.Proofs.Markup.SameEvents
import ResourceClient.Proofs.Source.LetterCase

namespace ResourceClient

open Text Markup Source

/-- A failure with the type that it quotes in small letters. -/
def UnitError.folded : UnitError → UnitError
  | .parse error => .parse error
  | .extract error => .extract error.folded

/-- Two failures that are the same but for the letter case of the type that they quote. -/
inductive UnitError.SameButType : UnitError → UnitError → Prop
  | same (error : UnitError) : SameButType error error
  | type (verb argument : String) {type type' : String} (h : fold type = fold type') :
    SameButType (.extract (.unknownType verb argument type)) (.extract (.unknownType verb argument type'))

theorem UnitError.sameButType_of_folded {error error' : UnitError} (h : error.folded = error'.folded) :
    SameButType error error' := by
  cases error with
  | parse e =>
    cases error' with
    | parse e' =>
      cases h
      exact .same _
    | extract e' => cases h
  | extract e =>
    cases error' with
    | parse e' => cases h
    | extract e' =>
      have h : e.folded = e'.folded := UnitError.extract.inj h
      cases e with
      | missingComponent =>
        cases e' <;> cases h
        exact .same _
      | missingType argument =>
        cases e' <;> cases h
        exact .same _
      | unknownType verb argument type =>
        cases e' with
        | unknownType verb' argument' type' =>
          obtain ⟨rfl, rfl, htype⟩ := ExtractError.unknownType.inj h
          exact .type verb argument htype
        | missingComponent => cases h
        | missingType argument' => cases h

/-- Two sources that differ in letter case only, and in their declaration lines at free places only. The places are
those of the first source. -/
structure Recased (source other : String) : Prop where
  letters : fold source = fold other
  fixed : fixedChars (places (declarations source).toList) (declarations source).toList =
    fixedChars (places (declarations source).toList) (declarations other).toList

namespace Recased

variable {source other : String}

theorem parse (h : Recased source other) :
    (Markup.parse (declarations source)).map foldedForest = (Markup.parse (declarations other)).map foldedForest := by
  have hfold := congrArg String.toList (fold_declarations h.letters)
  rw [fold, fold, String.toList_ofList, String.toList_ofList] at hfold
  obtain ⟨ps, hps, hsource, hother⟩ := Alike.exists_of_foldChars hfold
  have hr : Respects (places (declarations source).toList) ps := by
    refine respects_of_fixedChars ?_
    rw [hsource, hother]
    exact h.fixed
  obtain ⟨hevents, hfault⟩ := events_alike hps hsource hother hr
  exact parse_mapAttributes _ hevents hfault

theorem endpointIn (h : Recased source other) (name : String) :
    (endpointIn name source).mapError UnitError.folded = (endpointIn name other).mapError UnitError.folded := by
  have hextract : ∀ x : Except ExtractError (Option Endpoint),
      (x.mapError UnitError.extract).mapError UnitError.folded = (x.mapError ExtractError.folded).mapError .extract :=
    fun x => by cases x <;> rfl
  unfold ResourceClient.endpointIn
  rcases cases_of_map_eq_map h.parse with ⟨e, hs, ho⟩ | ⟨forest, forest', hs, ho, hsame⟩
  · rw [hs, ho]
  · rw [hs, ho]
    show (Except.mapError _ _).mapError _ = (Except.mapError _ _).mapError _
    rw [hextract, hextract, ← Endpoint.ofForest_folded, hsame, Endpoint.ofForest_folded]

end Recased

/-- Letter case does not matter where it is free. -/
theorem generateUnit_recased {source other : String} (h : Recased source other) (options : TypeScript.EmitOptions)
    (typed : Bool) (name : String) :
    (∃ output, generateUnit options typed name source = .ok output ∧
      generateUnit options typed name other = .ok output) ∨
    ∃ error error', generateUnit options typed name source = .error error ∧
      generateUnit options typed name other = .error error' ∧ UnitError.SameButType error error' := by
  have hall := h.endpointIn name
  rw [generateUnit_eq, generateUnit_eq]
  cases hs : endpointIn name source with
  | ok found =>
    cases ho : endpointIn name other with
    | ok found' =>
      rw [hs, ho] at hall
      cases hall
      exact .inl ⟨_, rfl, rfl⟩
    | error e =>
      rw [hs, ho] at hall
      cases hall
  | error e =>
    cases ho : endpointIn name other with
    | ok found =>
      rw [hs, ho] at hall
      cases hall
    | error e' =>
      rw [hs, ho] at hall
      exact .inr ⟨e, e', rfl, rfl, UnitError.sameButType_of_folded (Except.error.inj hall)⟩

/-! ## Two sources -/

/-- The text of some lines. -/
def joinedLines (lines : List String) : List Char :=
  ['\n'].intercalate (lines.map String.toList)

/-- A source in small letters, with a line of code in it. -/
def plainLines : List String :=
  ["<cfcomponent taffy_uri=\"/notes/\x7bid\x7d\">",
   "<cffunction name=\"get\" access=\"public\">",
   "<cfargument name=\"id\" type=\"string\" required=\"yes\"/>",
   "<cfreturn 1>",
   "</cffunction>",
   "</cfcomponent>"]

/-- The source in other letters, but for its URI, the name of its argument and its code. -/
def recasedLines : List String :=
  ["<CFComponent TAFFY_URI=\"/notes/\x7bid\x7d\">",
   "<CFFUNCTION Name=\"GET\" access=\"Public\">",
   "<cfArgument NAME=\"id\" type=\"STRING\" Required=\"Yes\"/>",
   "<cfreturn 1>",
   "</cfFunction>",
   "</CFCOMPONENT>"]

/-- The lists of characters are found for each line by unification, which is faster than to read the lines. -/
theorem joinedLines_ofList (css : List (List Char)) : joinedLines (css.map String.ofList) = ['\n'].intercalate css := by
  have hid : String.toList ∘ String.ofList = id := funext fun _ => String.toList_ofList
  rw [joinedLines, List.map_map, hid, List.map_id]

theorem recased_ofList {cs ds : List Char} (hletters : foldChars cs = foldChars ds)
    (hfixed : fixedChars (places (['\n'].intercalate (declarationLines cs))) (['\n'].intercalate (declarationLines cs)) =
      fixedChars (places (['\n'].intercalate (declarationLines cs))) (['\n'].intercalate (declarationLines ds))) :
    Recased (String.ofList cs) (String.ofList ds) where
  letters := by rw [fold, fold, String.toList_ofList, String.toList_ofList, hletters]
  fixed := by
    simp only [declarations, String.toList_ofList]
    exact hfixed

theorem generateUnit_recased_notes :
    Recased (String.ofList (joinedLines plainLines)) (String.ofList (joinedLines recasedLines)) ∧
      ((∃ output, generateUnit {} true "notes" (String.ofList (joinedLines plainLines)) = .ok output ∧
        generateUnit {} true "notes" (String.ofList (joinedLines recasedLines)) = .ok output) ∨
      ∃ error error', generateUnit {} true "notes" (String.ofList (joinedLines plainLines)) = .error error ∧
        generateUnit {} true "notes" (String.ofList (joinedLines recasedLines)) = .error error' ∧
        UnitError.SameButType error error') := by
  have h : Recased (String.ofList (joinedLines plainLines)) (String.ofList (joinedLines recasedLines)) := by
    have hplain : joinedLines plainLines = ['\n'].intercalate [_, _, _, _, _, _] :=
      joinedLines_ofList [_, _, _, _, _, _]
    have hrecased : joinedLines recasedLines = ['\n'].intercalate [_, _, _, _, _, _] :=
      joinedLines_ofList [_, _, _, _, _, _]
    rw [hplain, hrecased]
    exact recased_ofList (by decide +kernel) (by decide +kernel)
  exact ⟨h, generateUnit_recased h {} true "notes"⟩

end ResourceClient
