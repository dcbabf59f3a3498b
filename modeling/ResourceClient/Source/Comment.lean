/-
Inline comments: `<!---` up to the next `--->`. A comment that is not closed on its line is text.
-/
import ResourceClient.Text.Search

namespace ResourceClient.Source

open Text

def commentOpening : List Char := "<!---".toList

def commentClosing : List Char := "--->".toList

/-- What follows the comment that starts a text. -/
def comment? (cs : List Char) : Option (List Char) :=
  (strip? commentOpening cs).bind (after? commentClosing)

theorem comment?_length {cs rest : List Char} (h : comment? cs = some rest) : rest.length < cs.length := by
  obtain ⟨body, h1, h2⟩ := Option.bind_eq_some_iff.1 h
  have l1 := strip?_length h1
  have l2 := after?_length h2
  have : commentOpening.length = 5 := by decide
  omega

/-- Drops the comments of a line, from the left. -/
def stripComments (cs : List Char) : List Char :=
  match h : comment? cs with
  | some rest =>
    have := comment?_length h
    stripComments rest
  | none => match cs with
    | [] => []
    | c :: cs => c :: stripComments cs
termination_by cs.length

end ResourceClient.Source
