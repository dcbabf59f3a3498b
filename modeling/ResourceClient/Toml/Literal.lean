/-
The four kinds of strings of TOML: basic ones have escapes and literal ones have none, and both may be
written over several lines between tripled quotes.
-/
import ResourceClient.Text.Digits
import ResourceClient.Text.Search

namespace ResourceClient.Toml

open Text

/-- A character that may stand for itself: a tab, or no control character of ASCII. -/
def isPlain (c : Char) : Bool :=
  c == '\t' || (0x20 ≤ c.toNat && c.toNat != 0x7F)

/-- The character of a number written in exactly these hexadecimal digits. -/
def scalar? (digits : List Char) : Option Char :=
  match number? 16 digits with
  | none => none
  | some n => if n.isValidChar then some (Char.ofNat n) else none

/-- The character of an escape, after its backslash, and what follows. -/
def escape? : List Char → Option (Char × List Char)
  | 'b' :: cs => some ('\x08', cs)
  | 't' :: cs => some ('\t', cs)
  | 'n' :: cs => some ('\n', cs)
  | 'f' :: cs => some ('\x0c', cs)
  | 'r' :: cs => some ('\r', cs)
  | 'e' :: cs => some ('\x1b', cs)
  | '\x22' :: cs => some ('\x22', cs)
  | '\\' :: cs => some ('\\', cs)
  | 'x' :: a :: b :: cs => (scalar? [a, b]).map (·, cs)
  | 'u' :: a :: b :: c :: d :: cs => (scalar? [a, b, c, d]).map (·, cs)
  | 'U' :: a :: b :: c :: d :: e :: f :: g :: h :: cs => (scalar? [a, b, c, d, e, f, g, h]).map (·, cs)
  | _ => none

theorem escape?_length {cs rest : List Char} {c : Char} (h : escape? cs = some (c, rest)) :
    rest.length < cs.length := by
  unfold escape? at h
  split at h
  all_goals first
    | (cases h; simp)
    | cases h
    | (obtain ⟨_, _, h⟩ := Option.map_eq_some_iff.1 h; cases h; simp only [List.length_cons]; omega)

/-- A basic string after its quote. -/
def basic? : List Char → Option (List Char × List Char)
  | [] => none
  | c :: cs =>
    if c = '\x22' then some ([], cs)
    else if c = '\\' then
      match h : escape? cs with
      | none => none
      | some (d, rest) =>
        have := escape?_length h
        (basic? rest).map fun (text, rest) => (d :: text, rest)
    else if isPlain c then (basic? cs).map fun (text, rest) => (c :: text, rest)
    else none
termination_by cs => cs.length
decreasing_by all_goals (simp only [List.length_cons]; omega)

/-- A literal string after its quote. -/
def literal? : List Char → Option (List Char × List Char)
  | [] => none
  | c :: cs =>
    if c = '\x27' then some ([], cs)
    else if isPlain c then (literal? cs).map fun (text, rest) => (c :: text, rest)
    else none

/-! ## Over several lines -/

/-- The line break that starts a text. -/
def lineBreak? : List Char → Option (List Char)
  | '\n' :: cs => some cs
  | '\r' :: '\n' :: cs => some cs
  | _ => none

/-- The text without a line break at its start. -/
def dropLineBreak (cs : List Char) : List Char :=
  (lineBreak? cs).getD cs

theorem lineBreak?_length {cs rest : List Char} (h : lineBreak? cs = some rest) : rest.length < cs.length := by
  unfold lineBreak? at h
  split at h <;> cases h <;> simp only [List.length_cons] <;> omega

theorem dropLineBreak_length (cs : List Char) : (dropLineBreak cs).length ≤ cs.length := by
  unfold dropLineBreak
  cases h : lineBreak? cs with
  | none => exact Nat.le_refl _
  | some rest => exact Nat.le_of_lt (lineBreak?_length h)

/-- The end of a string between tripled quotes, where at least three of them stand: up to two more in
front belong to the string. -/
def closing? (quote : Char) (cs : List Char) : Option (List Char × List Char) :=
  let run := (cs.takeWhile (· == quote)).length
  if 3 ≤ run ∧ run ≤ 5 then some (List.replicate (run - 3) quote, cs.drop run) else none

theorem closing?_length {quote : Char} {cs text rest : List Char} (h : closing? quote cs = some (text, rest)) :
    rest.length < cs.length := by
  unfold closing? at h
  simp only at h
  split at h
  · rename_i hr
    cases h
    have := (List.takeWhile_sublist (· == quote) (l := cs)).length_le
    rw [List.length_drop]
    omega
  · cases h

/-- Where a backslash at the end of a line continues: after all blanks and line breaks. -/
def continuation? (cs : List Char) : Option (List Char) :=
  (lineBreak? (cs.dropWhile fun c => c == ' ' || c == '\t')).map fun rest =>
    rest.dropWhile fun c => c == ' ' || c == '\t' || c == '\n' || c == '\r'

theorem continuation?_length {cs rest : List Char} (h : continuation? cs = some rest) :
    rest.length < cs.length := by
  obtain ⟨more, h1, rfl⟩ := Option.map_eq_some_iff.1 h
  have l1 := lineBreak?_length h1
  have l2 := length_dropWhile_le (fun c => c == ' ' || c == '\t') cs
  have l3 := length_dropWhile_le (fun c => c == ' ' || c == '\t' || c == '\n' || c == '\r') more
  omega

/-- A basic string over several lines, after its quotes and the line break behind them. -/
def basicLines? : List Char → Option (List Char × List Char)
  | [] => none
  | c :: cs =>
    if ['\x22', '\x22', '\x22'].isPrefixOf (c :: cs) then closing? '\x22' (c :: cs)
    else if c = '\\' then
      match h : continuation? cs with
      | some rest =>
        have := continuation?_length h
        basicLines? rest
      | none =>
        match h : escape? cs with
        | none => none
        | some (d, rest) =>
          have := escape?_length h
          (basicLines? rest).map fun (text, rest) => (d :: text, rest)
    else if c = '\n' ∨ (c = '\r' ∧ cs.head? = some '\n') ∨ isPlain c then
      (basicLines? cs).map fun (text, rest) => (c :: text, rest)
    else none
termination_by cs => cs.length
decreasing_by all_goals (simp only [List.length_cons]; omega)

/-- A literal string over several lines, after its quotes and the line break behind them. -/
def literalLines? : List Char → Option (List Char × List Char)
  | [] => none
  | c :: cs =>
    if ['\x27', '\x27', '\x27'].isPrefixOf (c :: cs) then closing? '\x27' (c :: cs)
    else if c = '\n' ∨ (c = '\r' ∧ cs.head? = some '\n') ∨ isPlain c then
      (literalLines? cs).map fun (text, rest) => (c :: text, rest)
    else none

/-! ## All kinds -/

/-- A string and whether it may run over several lines. -/
structure Literal where
  text : String
  multiline : Bool
  deriving DecidableEq, Repr

/-- The string that starts a text with a quote, and what follows it. -/
def read? (cs : List Char) : Option (Literal × List Char) :=
  match cs with
  | '\x22' :: '\x22' :: '\x22' :: more =>
    (basicLines? (dropLineBreak more)).map fun (text, rest) => (⟨String.ofList text, true⟩, rest)
  | '\x27' :: '\x27' :: '\x27' :: more =>
    (literalLines? (dropLineBreak more)).map fun (text, rest) => (⟨String.ofList text, true⟩, rest)
  | '\x22' :: more => (basic? more).map fun (text, rest) => (⟨String.ofList text, false⟩, rest)
  | '\x27' :: more => (literal? more).map fun (text, rest) => (⟨String.ofList text, false⟩, rest)
  | _ => none

theorem basic?_length {cs text rest : List Char} (h : basic? cs = some (text, rest)) :
    rest.length < cs.length := by
  fun_induction basic? cs generalizing text with
  | case1 => cases h
  | case2 => cases h; simp
  | case3 => cases h
  | case4 cs d more h1 _ _ ih =>
    obtain ⟨⟨_, _⟩, h2, h3⟩ := Option.map_eq_some_iff.1 h
    cases h3
    have := ih h2
    have := escape?_length h1
    simp only [List.length_cons]; omega
  | case5 c cs _ _ _ ih =>
    obtain ⟨⟨_, _⟩, h2, h3⟩ := Option.map_eq_some_iff.1 h
    cases h3
    have := ih h2
    simp only [List.length_cons]; omega
  | case6 => cases h

theorem literal?_length {cs text rest : List Char} (h : literal? cs = some (text, rest)) :
    rest.length < cs.length := by
  fun_induction literal? cs generalizing text with
  | case1 => cases h
  | case2 => cases h; simp
  | case3 c cs _ _ ih =>
    obtain ⟨⟨_, _⟩, h2, h3⟩ := Option.map_eq_some_iff.1 h
    cases h3
    have := ih h2
    simp only [List.length_cons]; omega
  | case4 => cases h

theorem basicLines?_length {cs text rest : List Char} (h : basicLines? cs = some (text, rest)) :
    rest.length < cs.length := by
  fun_induction basicLines? cs generalizing text with
  | case1 => cases h
  | case2 => exact closing?_length h
  | case3 cs more h1 _ _ ih =>
    have := ih h
    have := continuation?_length h1
    simp only [List.length_cons]; omega
  | case4 => cases h
  | case5 cs _ d more h1 _ _ ih =>
    obtain ⟨⟨_, _⟩, h2, h3⟩ := Option.map_eq_some_iff.1 h
    cases h3
    have := ih h2
    have := escape?_length h1
    simp only [List.length_cons]; omega
  | case6 c cs _ _ _ ih =>
    obtain ⟨⟨_, _⟩, h2, h3⟩ := Option.map_eq_some_iff.1 h
    cases h3
    have := ih h2
    simp only [List.length_cons]; omega
  | case7 => cases h

theorem literalLines?_length {cs text rest : List Char} (h : literalLines? cs = some (text, rest)) :
    rest.length < cs.length := by
  fun_induction literalLines? cs generalizing text with
  | case1 => cases h
  | case2 => exact closing?_length h
  | case3 c cs _ _ ih =>
    obtain ⟨⟨_, _⟩, h2, h3⟩ := Option.map_eq_some_iff.1 h
    cases h3
    have := ih h2
    simp only [List.length_cons]; omega
  | case4 => cases h

theorem read?_length {cs rest : List Char} {l : Literal} (h : read? cs = some (l, rest)) :
    rest.length < cs.length := by
  unfold read? at h
  split at h
  · rename_i more
    obtain ⟨⟨_, _⟩, h2, h3⟩ := Option.map_eq_some_iff.1 h
    cases h3
    have := basicLines?_length h2
    have := dropLineBreak_length more
    simp only [List.length_cons]; omega
  · rename_i more
    obtain ⟨⟨_, _⟩, h2, h3⟩ := Option.map_eq_some_iff.1 h
    cases h3
    have := literalLines?_length h2
    have := dropLineBreak_length more
    simp only [List.length_cons]; omega
  · obtain ⟨⟨_, _⟩, h2, h3⟩ := Option.map_eq_some_iff.1 h
    cases h3
    have := basic?_length h2
    simp only [List.length_cons]; omega
  · obtain ⟨⟨_, _⟩, h2, h3⟩ := Option.map_eq_some_iff.1 h
    cases h3
    have := literal?_length h2
    simp only [List.length_cons]; omega
  · cases h

end ResourceClient.Toml
