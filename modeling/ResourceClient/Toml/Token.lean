/-
The tokens of a TOML document that holds settings. Blanks and comments separate tokens and leave no
trace; line breaks are tokens. The marks of dotted keys, numbers, dates and inline tables are refused,
as no setting has any of them.
-/
import ResourceClient.Toml.Literal

namespace ResourceClient.Toml

open Text

inductive Token
  | lineBreak
  | equals
  | comma
  | openBracket
  | closeBracket
  | word (text : String)
  | literal (value : Literal)
  deriving DecidableEq, Repr

/-- The characters of bare keys, and of the two truth values. -/
def isWordChar (c : Char) : Bool :=
  c.isAlphanum || c == '_' || c == '-'

/-- The mark that is a token by itself. -/
def mark? (c : Char) : Option Token :=
  if c = '=' then some .equals
  else if c = ',' then some .comma
  else if c = '[' then some .openBracket
  else if c = ']' then some .closeBracket
  else none

/-- What follows a comment after its hash sign: the line break that ends it, or nothing. -/
def afterComment? (cs : List Char) : Option (List Char) :=
  match cs.dropWhile isPlain with
  | [] => some []
  | '\n' :: rest => some ('\n' :: rest)
  | '\r' :: '\n' :: rest => some ('\r' :: '\n' :: rest)
  | _ => none

theorem afterComment?_length {cs rest : List Char} (h : afterComment? cs = some rest) :
    rest.length ≤ cs.length := by
  have l := length_dropWhile_le isPlain cs
  unfold afterComment? at h
  split at h
  · cases h; exact Nat.zero_le _
  · rename_i h1; cases h; rwa [h1] at l
  · rename_i h1; cases h; rwa [h1] at l
  · cases h

/-- The tokens of a text. -/
def tokens? : List Char → Option (List Token)
  | [] => some []
  | c :: cs =>
    if c = ' ' ∨ c = '\t' then tokens? cs
    else if c = '#' then
      match h : afterComment? cs with
      | none => none
      | some rest =>
        have := afterComment?_length h
        tokens? rest
    else if isWordChar c then
      have := length_dropWhile_le isWordChar cs
      (tokens? (cs.dropWhile isWordChar)).map (.word (String.ofList (c :: cs.takeWhile isWordChar)) :: ·)
    else match mark? c with
      | some mark => (tokens? cs).map (mark :: ·)
      | none =>
        match h : lineBreak? (c :: cs) with
        | some rest =>
          have := lineBreak?_length h
          (tokens? rest).map (.lineBreak :: ·)
        | none =>
          match h : read? (c :: cs) with
          | some (value, rest) =>
            have := read?_length h
            (tokens? rest).map (.literal value :: ·)
          | none => none
termination_by cs => cs.length
decreasing_by all_goals (simp only [List.length_cons] at *; omega)

end ResourceClient.Toml
