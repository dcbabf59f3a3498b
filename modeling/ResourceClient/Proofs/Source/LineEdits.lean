/-
The filter of declaration lines works line by line. What it keeps of a text and of one put behind it, where a line
starts, is what it keeps of both together. So lines that declare nothing can come and go, and line feeds can get
carriage returns before them, and nothing changes in what is generated.
-/
import ResourceClient.Generation.Output
import ResourceClient.Proofs.Source.Declarations
import Mathlib.Logic.Relation

namespace ResourceClient

namespace Source

open Text

variable {a b cs cs' line : List Char}

/-! ## Texts put together -/

/-- What is kept of a text behind a line start follows what is kept of the text before it. -/
theorem declarationLines_append (h : IsLineStart a) (b : List Char) :
    declarationLines (a ++ b) = declarationLines a ++ declarationLines b := by
  rw [declarationLines, lines_append h, List.filter_append, List.map_append]
  rfl

/-! ## Edits -/

/-- A text with a carriage return before every line feed. -/
def withReturns (cs : List Char) : List Char :=
  cs.flatMap fun c => if c = '\n' then ['\r', '\n'] else [c]

/-- A change of a source that its declarations do not depend on: a line that declares nothing is put where a line
starts, or all line feeds get carriage returns before them. -/
inductive Edit : List Char → List Char → Prop
  | line {a line : List Char} (start : IsLineStart a) (other : IsOther line) (b : List Char) :
    Edit (a ++ b) (a ++ (line ++ '\n' :: b))
  | returns {cs : List Char} (free : '\r' ∉ cs) : Edit cs (withReturns cs)

/-- A line that declares nothing is not kept. -/
theorem IsOther.declarationLines_append (h : IsOther line) (b : List Char) :
    declarationLines (line ++ '\n' :: b) = declarationLines b := by
  obtain ⟨start, hstart, -, hlines⟩ := exists_lines_append h.single b
  rw [declarationLines, hlines, List.filter_cons_of_neg (by rw [h.isDeclaration_prefix hstart]; decide)]
  rfl

/-- A line is ended alike with a carriage return and without. -/
theorem lines_withReturns (h : '\r' ∉ cs) : lines (withReturns cs) = lines cs := by
  induction cs with
  | nil => rfl
  | cons c cs ih =>
    rw [List.mem_cons, not_or] at h
    have hlines := ih h.2
    by_cases hc : c = '\n'
    · subst hc
      show lines ('\r' :: '\n' :: withReturns cs) = _
      rw [lines, lines, hlines]
    · have hreturns : withReturns (c :: cs) = c :: withReturns cs := by
        rw [withReturns, List.flatMap_cons, if_neg hc]
        rfl
      rw [hreturns, lines_cons hc fun hr => absurd hr.symm h.1, lines_cons hc fun hr => absurd hr.symm h.1, hlines]

theorem Edit.declarationLines_eq (h : Edit cs cs') : declarationLines cs' = declarationLines cs := by
  cases h with
  | line start other b =>
    rw [declarationLines_append start, declarationLines_append start, other.declarationLines_append]
  | returns free => rw [declarationLines, declarationLines, lines_withReturns free]

/-- No number of edits changes what is kept. -/
theorem declarationLines_eq_of_edits (h : Relation.EqvGen Edit cs cs') :
    declarationLines cs' = declarationLines cs := by
  induction h with
  | rel _ _ h => exact h.declarationLines_eq
  | refl _ => rfl
  | symm _ _ _ ih => exact ih.symm
  | trans _ _ _ _ _ ih ih' => exact ih'.trans ih

end Source

/-- The declaration lines of a text are those of its parts, cut where a line starts. Lines that declare nothing can be
put in and taken out, and line feeds can be written with carriage returns, in any number of edits: the declarations of
the source stay the same text, and so do the output or the error of its generation. -/
theorem generateUnit_edited :
    (∀ a b, Source.IsLineStart a →
      Source.declarationLines (a ++ b) = Source.declarationLines a ++ Source.declarationLines b) ∧
    ∀ source source' : String, Relation.EqvGen Source.Edit source.toList source'.toList →
      Source.declarations source' = Source.declarations source ∧
      ∀ options typed name, generateUnit options typed name source' = generateUnit options typed name source := by
  refine ⟨fun a b h => Source.declarationLines_append h b, fun source source' h => ?_⟩
  have hdeclarations : Source.declarations source' = Source.declarations source := by
    rw [Source.declarations, Source.declarations, Source.declarationLines_eq_of_edits h]
  refine ⟨hdeclarations, fun options typed name => ?_⟩
  rw [generateUnit, generateUnit, hdeclarations]

/-- A line of code taken out of a source, and then its line feeds written with carriage returns. -/
theorem generateUnit_edited_returns :
    Source.IsLineStart "<cfcomponent>\n".toList ∧
    Relation.EqvGen Source.Edit "<cfcomponent>\n<cfset x = 1>\n</cfcomponent>".toList
      "<cfcomponent>\r\n</cfcomponent>".toList ∧
    Source.declarations "<cfcomponent>\r\n</cfcomponent>" =
      Source.declarations "<cfcomponent>\n<cfset x = 1>\n</cfcomponent>" ∧
    ∀ options typed name, generateUnit options typed name "<cfcomponent>\r\n</cfcomponent>" =
      generateUnit options typed name "<cfcomponent>\n<cfset x = 1>\n</cfcomponent>" := by
  have hstart : Source.IsLineStart "<cfcomponent>\n".toList := .inr (by decide)
  have hother : Source.IsOther "<cfset x = 1>".toList := ⟨by decide, by decide +kernel⟩
  have hline : Source.Edit "<cfcomponent>\n</cfcomponent>".toList
      "<cfcomponent>\n<cfset x = 1>\n</cfcomponent>".toList :=
    .line hstart hother "</cfcomponent>".toList
  have hreturns : Source.Edit "<cfcomponent>\n</cfcomponent>".toList "<cfcomponent>\r\n</cfcomponent>".toList :=
    .returns (by decide)
  have hedits := Relation.EqvGen.trans _ _ _ (.symm _ _ (.rel _ _ hline)) (.rel _ _ hreturns)
  exact ⟨hstart, hedits, generateUnit_edited.2 _ _ hedits⟩

end ResourceClient
