/-
The filter of declaration lines does not look at letter case: on a text in small letters it keeps the same lines and
drops the same comments.
-/
import ResourceClient.Proofs.Source.Declarations
import ResourceClient.Proofs.Text.LetterCase

namespace ResourceClient.Source

open Text

theorem lines_foldChars (cs : List Char) : lines (foldChars cs) = (lines cs).map foldChars := by
  have hfeed : ∀ {c : Char}, c.toLower = '\n' ↔ c = '\n' := toLower_eq_iff (by decide)
  have hreturn : ∀ {c : Char}, c.toLower = '\r' ↔ c = '\r' := toLower_eq_iff (by decide)
  -- a character that ends no line in one text ends none in the other
  have hkept : ∀ {c : Char} {cs : List Char}, (∀ more, c = '\r' → cs = '\n' :: more → False) →
      c.toLower = '\r' → (foldChars cs).head? ≠ some '\n' := by
    intro c cs hr h hhead
    cases cs with
    | nil => cases hhead
    | cons d cs => exact hr cs (hreturn.1 h) (congrArg (· :: cs) (hfeed.1 (Option.some.inj hhead)))
  fun_induction lines cs with
  | case1 => rfl
  | case2 cs ih =>
    show lines ('\n' :: foldChars cs) = _
    rw [lines, ih]
    rfl
  | case3 cs ih =>
    show lines ('\r' :: '\n' :: foldChars cs) = _
    rw [lines, ih]
    rfl
  | case4 c cs hc hr hnil ih =>
    show lines (c.toLower :: foldChars cs) = _
    rw [lines_cons (fun h => hc (hfeed.1 h)) (hkept hr), ih, hnil]
    rfl
  | case5 c cs hc hr line more hlines ih =>
    show lines (c.toLower :: foldChars cs) = _
    rw [lines_cons (fun h => hc (hfeed.1 h)) (hkept hr), ih, hlines]
    rfl

theorem isDeclaration_foldChars (line : List Char) : isDeclaration (foldChars line) = isDeclaration line := by
  unfold isDeclaration
  rw [foldChars_foldChars]

theorem comment?_foldChars (cs : List Char) : comment? (foldChars cs) = (comment? cs).map foldChars := by
  unfold comment?
  rw [strip?_foldChars (by decide)]
  cases strip? commentOpening cs with
  | none => rfl
  | some rest => exact after?_foldChars (by decide) rest

theorem stripComments_of_comment? {cs rest : List Char} (h : comment? cs = some rest) :
    stripComments cs = stripComments rest := by
  rw [stripComments]
  split
  · rename_i h'
    rw [h] at h'
    cases h'
    rfl
  · rename_i h'
    rw [h] at h'
    cases h'

theorem stripComments_cons {c : Char} {cs : List Char} (h : comment? (c :: cs) = none) :
    stripComments (c :: cs) = c :: stripComments cs := by
  rw [stripComments]
  split
  · rename_i h'
    rw [h] at h'
    cases h'
  · rfl

theorem stripComments_foldChars (cs : List Char) : stripComments (foldChars cs) = foldChars (stripComments cs) := by
  fun_induction stripComments cs with
  | case1 cs rest h _ ih =>
    have hcomment : comment? (foldChars cs) = some (foldChars rest) := by
      rw [comment?_foldChars, h]
      rfl
    rw [stripComments_of_comment? hcomment, ih]
  | case2 h =>
    show stripComments [] = []
    exact stripComments_eq_self (by decide)
  | case3 c cs h ih =>
    have hnone : comment? (c.toLower :: foldChars cs) = none := by
      have hc := comment?_foldChars (c :: cs)
      rwa [h] at hc
    show stripComments (c.toLower :: foldChars cs) = _
    rw [stripComments_cons hnone, ih]
    rfl

theorem declarationLines_foldChars (cs : List Char) :
    declarationLines (foldChars cs) = (declarationLines cs).map foldChars := by
  unfold declarationLines
  rw [lines_foldChars, List.filter_map, List.map_map, List.map_map]
  have hsame : isDeclaration ∘ foldChars = isDeclaration := funext isDeclaration_foldChars
  rw [hsame]
  exact List.map_congr_left fun line _ => stripComments_foldChars line

theorem foldChars_intercalate (sep : List Char) (ls : List (List Char)) :
    foldChars (sep.intercalate ls) = (foldChars sep).intercalate (ls.map foldChars) := by
  induction ls with
  | nil => rfl
  | cons l ls ih =>
    cases ls with
    | nil => rw [List.intercalate_singleton, List.map_singleton, List.intercalate_singleton]
    | cons m ls =>
      rw [List.intercalate_cons_cons, foldChars_append, foldChars_append, ih]
      simp only [List.map_cons, List.intercalate_cons_cons]

/-- The declaration lines of a text in small letters are those of the text, in small letters. -/
theorem declarations_fold (source : String) : declarations (fold source) = fold (declarations source) := by
  unfold declarations fold
  rw [String.toList_ofList, String.toList_ofList, declarationLines_foldChars, foldChars_intercalate]
  rfl

/-- Texts that differ in letter case only have declaration lines that do. -/
theorem fold_declarations {source other : String} (h : fold source = fold other) :
    fold (declarations source) = fold (declarations other) := by
  rw [← declarations_fold, h, declarations_fold]

end ResourceClient.Source
