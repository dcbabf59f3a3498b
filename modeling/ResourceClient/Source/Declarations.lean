/-
The declaration lines of a component. Only the lines that mention one of three elements matter to its
interface; they are kept, without their inline comments, and all others are dropped.
-/
import ResourceClient.Source.Comment
import ResourceClient.Source.Lines
import ResourceClient.Text.Fold
import ResourceClient.Text.Search

namespace ResourceClient.Source

open Text

/-- The names of the elements that declare an interface. -/
def keywords : List String :=
  ["cfcomponent", "cffunction", "cfargument"]

/-- Whether a line mentions a declaring element, in any letter case. -/
def isDeclaration (line : List Char) : Bool :=
  keywords.any fun word => (after? word.toList (foldChars line)).isSome

/-- The declaration lines of a source without their comments. A line is kept for what it mentions before
its comments are dropped. -/
def declarationLines (cs : List Char) : List (List Char) :=
  ((lines cs).filter isDeclaration).map stripComments

/-- The declaration lines as one text. -/
def declarations (source : String) : String :=
  String.ofList (['\n'].intercalate (declarationLines source.toList))

end ResourceClient.Source
