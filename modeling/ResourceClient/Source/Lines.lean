/-
The lines of a source text. A line feed ends a line and takes a carriage return before it along; text
after the last line feed is a line when there is any.
-/
namespace ResourceClient.Source

/-- The lines of a text, without their ends. -/
def lines : List Char → List (List Char)
  | [] => []
  | '\n' :: cs => [] :: lines cs
  | '\r' :: '\n' :: cs => [] :: lines cs
  | c :: cs => match lines cs with
    | [] => [[c]]
    | line :: more => (c :: line) :: more

end ResourceClient.Source
