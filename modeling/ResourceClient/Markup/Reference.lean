/-
References in attribute values: five named entities and numeric references to characters. A value is
decoded as a whole, or not at all.
-/
import ResourceClient.Text.Digits
import ResourceClient.Text.Search

namespace ResourceClient.Markup

open Text

/-- The character with a code point, which is not the null character. -/
def scalar? (n : Nat) : Option Char :=
  if 0 < n ∧ n.isValidChar then some (Char.ofNat n) else none

/-- The character that a reference stands for, by what is between its ampersand and semicolon. -/
def referent? : List Char → Option Char
  | ['l', 't'] => some '<'
  | ['g', 't'] => some '>'
  | ['a', 'm', 'p'] => some '&'
  | ['a', 'p', 'o', 's'] => some '\x27'
  | ['q', 'u', 'o', 't'] => some '\x22'
  | '#' :: 'x' :: digits => (number? 16 digits).bind scalar?
  | '#' :: digits => (number? 10 digits).bind scalar?
  | _ => none

/-- The inside of a reference whose ampersand has just been read, and what follows its semicolon. -/
def reference? (cs : List Char) : Option (List Char × List Char) :=
  match cs.dropWhile fun c => c != ';' && c != '&' with
  | ';' :: rest => some (cs.takeWhile fun c => c != ';' && c != '&', rest)
  | _ => none

theorem reference?_length {cs name rest : List Char} (h : reference? cs = some (name, rest)) :
    rest.length < cs.length := by
  unfold reference? at h
  split at h
  · rename_i more h1
    cases h
    exact length_of_dropWhile h1
  · cases h

/-- A text with every reference replaced, unless one of its ampersands begins none. -/
def decode? : List Char → Option (List Char)
  | [] => some []
  | c :: cs =>
    if c = '&' then
      match h : reference? cs with
      | some (name, rest) =>
        have := reference?_length h
        match referent? name, decode? rest with
        | some c, some more => some (c :: more)
        | _, _ => none
      | none => none
    else (decode? cs).map (c :: ·)
termination_by cs => cs.length
decreasing_by all_goals (simp only [List.length_cons]; omega)

/-- The meaning of an attribute value: decoded where it can be, as written where it cannot. -/
def valueOf (cs : List Char) : List Char :=
  (decode? cs).getD cs

end ResourceClient.Markup
