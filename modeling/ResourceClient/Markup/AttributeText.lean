/-
The attributes written in a tag. A key runs to an equals sign or a blank; a value is quoted or runs to
a blank, and a key without an equals sign has the empty value.
-/
import ResourceClient.Markup.Error
import ResourceClient.Markup.Reference
import ResourceClient.Text.Blank
import ResourceClient.Text.Fold
import ResourceClient.Text.Search

namespace ResourceClient.Markup

open Text

/-- A key and a value as they are written. -/
structure RawAttribute where
  key : List Char
  value : List Char
  deriving DecidableEq, Repr

/-- The entry that a written attribute makes: its key in lower case, its value decoded. -/
def RawAttribute.entry (a : RawAttribute) : String × String :=
  (String.ofList (foldChars a.key), String.ofList (valueOf a.value))

/-- The characters of a key after its first. -/
def isKeyChar (c : Char) : Bool :=
  c != '=' && !isMarkupBlank c

/-- The value after an equals sign, and what follows it; `size` is that of the whole tag, where the lack
of a value or of a quote is noticed. -/
def readValue (size : Nat) (cs : List Char) : Except AttributeFault (List Char × List Char) :=
  match cs.dropWhile isMarkupBlank with
  | [] => .error (.missingValue size)
  | c :: more =>
    if c = '\x22' ∨ c = '\x27' then
      match more.dropWhile (· != c) with
      | [] => .error (.openQuote size c)
      | _ :: rest => .ok (more.takeWhile (· != c), rest)
    else
      .ok (c :: more.takeWhile (fun c => !isMarkupBlank c), more.dropWhile fun c => !isMarkupBlank c)

theorem readValue_length {size : Nat} {cs value rest : List Char}
    (h : readValue size cs = .ok (value, rest)) : rest.length ≤ cs.length := by
  unfold readValue at h
  split at h
  · cases h
  · rename_i c more h1
    have l1 := length_of_dropWhile h1
    split at h
    · split at h
      · cases h
      · rename_i h2
        cases h
        have := length_of_dropWhile h2
        omega
    · cases h
      have := length_dropWhile_le (fun c => !isMarkupBlank c) more
      omega

/-- The attribute whose key begins with `c`, and what follows it. -/
def readAttribute (size : Nat) (c : Char) (cs : List Char) :
    Except AttributeFault (RawAttribute × List Char) :=
  match (cs.dropWhile isKeyChar).dropWhile isMarkupBlank with
  | '=' :: more => (readValue size more).map fun (value, rest) => (⟨c :: cs.takeWhile isKeyChar, value⟩, rest)
  | rest => .ok (⟨c :: cs.takeWhile isKeyChar, []⟩, rest)

theorem readAttribute_length {size : Nat} {c : Char} {cs rest : List Char} {a : RawAttribute}
    (h : readAttribute size c cs = .ok (a, rest)) : rest.length ≤ cs.length := by
  unfold readAttribute at h
  have l1 := length_dropWhile_le isKeyChar cs
  split at h
  · rename_i more h1
    have l2 := length_of_dropWhile h1
    rcases h2 : readValue size more with f | ⟨value, rest'⟩ <;> rw [h2] at h <;> cases h
    have := readValue_length h2
    omega
  · cases h
    have := length_dropWhile_le isMarkupBlank (cs.dropWhile isKeyChar)
    omega

/-- The attributes in the part of a tag after its name. -/
def readAttributes (size : Nat) (cs : List Char) : Except AttributeFault (List RawAttribute) :=
  match h : cs.dropWhile isMarkupBlank with
  | [] => .ok []
  | c :: more =>
    match h1 : readAttribute size c more with
    | .error f => .error f
    | .ok (a, rest) =>
      have := Nat.lt_of_le_of_lt (readAttribute_length h1) (length_of_dropWhile h)
      (readAttributes size rest).map (a :: ·)
termination_by cs.length

end ResourceClient.Markup
