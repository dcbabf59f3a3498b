/-
URI templates. A template names its parameters in braces, one to a path segment, each with an optional
constraint after a colon. The clean form of a template has no constraints left, and filling it in
replaces its slots by arguments, by position and in one pass.
-/
import ResourceClient.Text.Blank
import ResourceClient.Text.Search

namespace ResourceClient.Template

open Text

/-! ## Parameters -/

/-- The parameter that opens a path segment: the name between the brace and a colon or closing brace. -/
def segmentParameter? (segment : List Char) : Option String :=
  match trim segment with
  | '{' :: inner =>
    let name := trim ((inner.takeWhile (· != '}')).takeWhile (· != ':'))
    if name.isEmpty then none else some (String.ofList name)
  | _ => none

/-- The parameters of a template, in order. -/
def parameters (template : String) : List String :=
  (template.toList.splitOn '/').filterMap segmentParameter?

/-! ## The clean form -/

def isBrace (c : Char) : Bool :=
  c == '{' || c == '}'

/-- The name of a constrained parameter whose opening brace has just been read, and what follows its
closing brace. The name has no colon, and neither it nor the constraint has a brace. -/
def constrained? (cs : List Char) : Option (List Char × List Char) :=
  match cs.dropWhile fun c => c != ':' && !isBrace c with
  | ':' :: constraint =>
    match constraint.dropWhile fun c => !isBrace c with
    | '}' :: rest => some (trim (cs.takeWhile fun c => c != ':' && !isBrace c), rest)
    | _ => none
  | _ => none

theorem constrained?_length {cs name rest : List Char} (h : constrained? cs = some (name, rest)) :
    rest.length < cs.length := by
  unfold constrained? at h
  split at h
  · rename_i constraint h1
    split at h
    · rename_i more h2
      cases h
      exact Nat.lt_trans (length_of_dropWhile h2) (length_of_dropWhile h1)
    · cases h
  · cases h

/-- Drops the constraint of every parameter that has one, from the left. -/
def dropConstraints : List Char → List Char
  | [] => []
  | c :: cs =>
    if c = '{' then
      match h : constrained? cs with
      | some (name, rest) =>
        have := constrained?_length h
        '{' :: name ++ '}' :: dropConstraints rest
      | none => c :: dropConstraints cs
    else c :: dropConstraints cs
termination_by cs => cs.length
decreasing_by all_goals (simp only [List.length_cons]; omega)

/-- Makes one slash of each run of slashes. -/
def collapseSlashes : List Char → List Char
  | '/' :: '/' :: cs => collapseSlashes ('/' :: cs)
  | c :: cs => c :: collapseSlashes cs
  | [] => []

/-- The clean form on characters: no control characters, no blank ends, no constraints and no doubled
slashes, each step working on what the one before leaves. -/
def cleanChars (cs : List Char) : List Char :=
  collapseSlashes (dropConstraints (trim (cs.filter fun c => !isControl c)))

/-- The clean form of a template. -/
def clean (template : String) : String :=
  String.ofList (cleanChars template.toList)

/-! ## Slots -/

/-- The characters of a slot's name. -/
def isSlotChar (c : Char) : Bool :=
  c.isAlphanum || c == '_'

/-- A template cut into single characters and slots. -/
inductive Piece
  | literal (c : Char)
  | slot (name : List Char)
  deriving DecidableEq, Repr

/-- The text a piece was cut from. -/
def Piece.chars : Piece → List Char
  | .literal c => [c]
  | .slot name => '{' :: name ++ ['}']

/-- The slot whose opening brace has just been read, and what follows its closing brace. -/
def slot? (cs : List Char) : Option (List Char × List Char) :=
  match cs.dropWhile isSlotChar with
  | '}' :: rest => if (cs.takeWhile isSlotChar).isEmpty then none else some (cs.takeWhile isSlotChar, rest)
  | _ => none

theorem slot?_length {cs name rest : List Char} (h : slot? cs = some (name, rest)) :
    rest.length < cs.length := by
  unfold slot? at h
  split at h
  · rename_i more h1
    split at h
    · cases h
    · cases h
      exact length_of_dropWhile h1
  · cases h

/-- Cuts a text into its slots, from the left, and the characters between them. -/
def pieces : List Char → List Piece
  | [] => []
  | c :: cs =>
    if c = '{' then
      match h : slot? cs with
      | some (name, rest) =>
        have := slot?_length h
        .slot name :: pieces rest
      | none => .literal c :: pieces cs
    else .literal c :: pieces cs
termination_by cs => cs.length
decreasing_by all_goals (simp only [List.length_cons]; omega)

theorem slot?_chars {cs name rest : List Char} (h : slot? cs = some (name, rest)) :
    cs = name ++ '}' :: rest := by
  unfold slot? at h
  split at h
  · rename_i more h1
    split at h
    · cases h
    · cases h
      rw [← h1, List.takeWhile_append_dropWhile]
  · cases h

/-- Cutting a text loses nothing of it. -/
theorem flatMap_pieces (cs : List Char) : (pieces cs).flatMap Piece.chars = cs := by
  fun_induction pieces cs with
  | case1 => rfl
  | case2 cs name rest h _ ih =>
    simp [Piece.chars, ih, slot?_chars h]
  | case3 cs _ ih => simp [Piece.chars, ih]
  | case4 c cs _ ih => simp [Piece.chars, ih]

/-- Puts one argument into each slot while there are arguments; slots beyond them stay. -/
def fillPieces : List Piece → List (List Char) → List Char
  | [], _ => []
  | .literal c :: ps, args => c :: fillPieces ps args
  | .slot _ :: ps, arg :: args => arg ++ fillPieces ps args
  | p :: ps, [] => p.chars ++ fillPieces ps []

/-- The template with its slots filled by position. -/
def fill (template : String) (args : List String) : String :=
  String.ofList (fillPieces (pieces template.toList) (args.map String.toList))

end ResourceClient.Template
