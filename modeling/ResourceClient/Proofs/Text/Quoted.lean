/-
Reading double-quoted literals as JSON has them, with all its escapes, and what the literal of a text is: the
quotes and backslashes in it are escaped, and reading it gives the text.
-/
import ResourceClient.Text.Digits
import ResourceClient.Text.Quoted
import ResourceClient.Text.Blank
import Mathlib.Data.List.Basic

namespace ResourceClient.Text.Quoted

/-! ## Reading -/

/-- The character that a backslash and a letter stand for. -/
def escaped? : Char → Option Char
  | '\x22' => some '\x22'
  | '\\' => some '\\'
  | '/' => some '/'
  | 'b' => some '\x08'
  | 'f' => some '\x0c'
  | 'n' => some '\n'
  | 'r' => some '\r'
  | 't' => some '\t'
  | _ => none

/-- A number of four hexadecimal digits, and what follows them. -/
def unit? : List Char → Option (Nat × List Char)
  | a :: b :: c :: d :: rest => (number? 16 [a, b, c, d]).map fun n => (n, rest)
  | _ => none

def isHigh (n : Nat) : Bool :=
  0xD800 ≤ n && n ≤ 0xDBFF

def isLow (n : Nat) : Bool :=
  0xDC00 ≤ n && n ≤ 0xDFFF

/-- The character written by its number, or by two when it takes a surrogate pair. -/
def numbered? (cs : List Char) : Option (Char × List Char) :=
  match unit? cs with
  | none => none
  | some (n, rest) =>
    if isHigh n then
      match rest with
      | '\\' :: 'u' :: more =>
        match unit? more with
        | some (m, rest) =>
          if isLow m then some (Char.ofNat (0x10000 + (n - 0xD800) * 0x400 + (m - 0xDC00)), rest) else none
        | none => none
      | _ => none
    else if isLow n then none
    else some (Char.ofNat n, rest)

/-- The first character of a literal's text, and what follows it. A quote, a backslash or a character below
U+0020 does not stand for itself. -/
def character? : List Char → Option (Char × List Char)
  | [] => none
  | '\\' :: 'u' :: cs => numbered? cs
  | '\\' :: c :: cs => (escaped? c).map fun d => (d, cs)
  | c :: cs => if c = '\x22' ∨ c = '\\' ∨ c.toNat < 0x20 then none else some (c, cs)

theorem unit?_length {cs rest : List Char} {n : Nat} (h : unit? cs = some (n, rest)) : rest.length < cs.length := by
  unfold unit? at h
  split at h
  · obtain ⟨m, -, hm⟩ := Option.map_eq_some_iff.1 h
    cases hm
    simp only [List.length_cons]
    omega
  · cases h

theorem numbered?_length {cs rest : List Char} {c : Char} (h : numbered? cs = some (c, rest)) :
    rest.length < cs.length := by
  unfold numbered? at h
  split at h
  · cases h
  · rename_i n after hn
    have hafter := unit?_length hn
    split at h
    · split at h
      · rename_i more
        split at h
        · rename_i m rest' hm
          have hrest := unit?_length hm
          split at h
          · obtain ⟨-, rfl⟩ := Prod.mk.inj (Option.some.inj h)
            simp only [List.length_cons] at hafter
            omega
          · cases h
        · cases h
      · cases h
    · split at h
      · cases h
      · cases h
        exact hafter

theorem character?_length {cs rest : List Char} {c : Char} (h : character? cs = some (c, rest)) :
    rest.length < cs.length := by
  unfold character? at h
  split at h
  · cases h
  · have hrest := numbered?_length h
    simp only [List.length_cons]
    omega
  · obtain ⟨d, -, hd⟩ := Option.map_eq_some_iff.1 h
    cases hd
    simp only [List.length_cons]
    omega
  · split at h
    · cases h
    · cases h
      simp

/-- The text between the quotes. -/
def decodeBody? : List Char → Option (List Char)
  | [] => some []
  | c :: cs =>
    match h : character? (c :: cs) with
    | some (d, rest) =>
      have := character?_length h
      (decodeBody? rest).map (d :: ·)
    | none => none
termination_by cs => cs.length
decreasing_by exact this

/-- The text of a literal. -/
def decode? (literal : String) : Option String :=
  match literal.toList with
  | '\x22' :: cs =>
    if cs.getLast? = some '\x22' then (decodeBody? cs.dropLast).map String.ofList else none
  | _ => none

theorem decodeBody?_of_character? {cs rest : List Char} {c : Char} (h : character? cs = some (c, rest)) :
    decodeBody? cs = (decodeBody? rest).map (c :: ·) := by
  cases cs with
  | nil => cases h
  | cons d cs =>
    rw [decodeBody?]
    split
    · rename_i d' rest' h'
      rw [h] at h'
      cases h'
      rfl
    · rename_i h'
      rw [h] at h'
      cases h'

/-! ## Writing -/

theorem unit?_digits : ∀ n < 0x20, unit? ['0', '0', Nat.digitChar (n / 16), Nat.digitChar (n % 16)] = some (n, []) := by
  decide

/-- Four digits are read whatever follows them. -/
theorem unit?_append {cs : List Char} {n : Nat} (h : unit? cs = some (n, [])) (rest : List Char) :
    unit? (cs ++ rest) = some (n, rest) := by
  unfold unit? at h
  split at h
  · rename_i a b c d more
    obtain ⟨m, hm, he⟩ := Option.map_eq_some_iff.1 h
    cases he
    rw [List.cons_append, List.cons_append, List.cons_append, List.cons_append, List.nil_append, unit?, hm]
    rfl
  · cases h

/-- Each character is read back, whatever follows it. -/
theorem character?_encodeChar (c : Char) (rest : List Char) : character? (encodeChar c ++ rest) = some (c, rest) := by
  unfold encodeChar
  split_ifs with hquote hslash hb hf hn hr ht hlow
  · rw [hquote]; rfl
  · rw [hslash]; rfl
  · rw [hb]; rfl
  · rw [hf]; rfl
  · rw [hn]; rfl
  · rw [hr]; rfl
  · rw [ht]; rfl
  · have hunit := unit?_append (unit?_digits c.toNat hlow) rest
    show numbered? (_ ++ rest) = _
    have hhigh : isHigh c.toNat = false := by simp [isHigh]; omega
    have hlow : isLow c.toNat = false := by simp [isLow]; omega
    rw [numbered?, hunit]
    simp only [hhigh, hlow, Bool.false_eq_true, if_false, Char.ofNat_toNat]
  · rw [List.singleton_append]
    unfold character?
    split
    · rename_i he; cases he
    · rename_i he; cases he; exact absurd rfl hslash
    · rename_i he; cases he; exact absurd rfl hslash
    · rename_i he
      cases he
      rw [if_neg]
      rintro (h | h | h)
      · exact hquote h
      · exact hslash h
      · exact hlow h

theorem decodeBody?_body (cs : List Char) : decodeBody? (body cs) = some cs := by
  induction cs with
  | nil => rw [body_nil, decodeBody?]
  | cons c cs ih =>
    have hbody : body (c :: cs) = encodeChar c ++ body cs := List.flatMap_cons
    rw [hbody, decodeBody?_of_character? (character?_encodeChar c (body cs)), ih]
    rfl

/-- The literal of a text is read as the text. -/
theorem decode?_encode (s : String) : decode? (encode s) = some s := by
  unfold decode? encode
  rw [String.toList_ofList]
  simp only [List.getLast?_append, List.getLast?_singleton, Option.some_or, if_true, List.dropLast_concat,
    decodeBody?_body, Option.map_some, String.ofList_toList]

/-! ## The characters of a literal -/

/-- A text without a quote or a backslash but those of its escapes, each of which has a backslash in front. -/
inductive Escaped : List Char → Prop
  | nil : Escaped []
  | plain {c : Char} {cs : List Char} (hq : c ≠ '\x22') (hs : c ≠ '\\') (h : Escaped cs) : Escaped (c :: cs)
  | escape {c : Char} {cs : List Char} (h : Escaped cs) : Escaped ('\\' :: c :: cs)

theorem digitChar_unescaped : ∀ n < 16, Nat.digitChar n ≠ '\\' ∧ Nat.digitChar n ≠ '\x22' := by
  decide

theorem Escaped.encodeChar_append {cs : List Char} (h : Escaped cs) (c : Char) : Escaped (encodeChar c ++ cs) := by
  unfold encodeChar
  split_ifs with hquote hslash
  all_goals first | exact .escape h | skip
  · rename_i hlow
    obtain ⟨hs, hq⟩ := digitChar_unescaped (c.toNat / 16) (by omega)
    obtain ⟨hs', hq'⟩ := digitChar_unescaped (c.toNat % 16) (by omega)
    exact .escape (.plain (by decide) (by decide) (.plain (by decide) (by decide) (.plain hq hs (.plain hq' hs' h))))
  · exact .plain hquote hslash h

theorem escaped_body (cs : List Char) : Escaped (body cs) := by
  induction cs with
  | nil => exact .nil
  | cons c cs ih => exact ih.encodeChar_append c

theorem digitChar_printable : ∀ n < 16, 0x20 ≤ (Nat.digitChar n).toNat ∧ isControl (Nat.digitChar n) = false := by
  decide

/-- Nothing below U+0020 stands in a literal, and of the other control characters only those of its text. -/
theorem of_mem_encodeChar {c d : Char} (h : d ∈ encodeChar c) :
    0x20 ≤ d.toNat ∧ (isControl c = false → isControl d = false) := by
  have hall : ∀ cs : List Char, (∀ d ∈ cs, 0x20 ≤ d.toNat ∧ isControl d = false) → d ∈ cs →
      0x20 ≤ d.toNat ∧ (isControl c = false → isControl d = false) :=
    fun cs hcs hd => ⟨(hcs d hd).1, fun _ => (hcs d hd).2⟩
  have hfixed : ∀ cs : List Char, (cs.all fun d => 0x20 ≤ d.toNat && !isControl d) = true → d ∈ cs →
      0x20 ≤ d.toNat ∧ (isControl c = false → isControl d = false) :=
    fun cs hcs => hall cs (by simpa [List.all_eq_true] using hcs)
  unfold encodeChar at h
  split_ifs at h with _ _ _ _ _ _ _ hlow
  · exact hfixed _ (by decide) h
  · exact hfixed _ (by decide) h
  · exact hfixed _ (by decide) h
  · exact hfixed _ (by decide) h
  · exact hfixed _ (by decide) h
  · exact hfixed _ (by decide) h
  · exact hfixed _ (by decide) h
  · refine hall _ ?_ h
    have h1 := digitChar_printable (c.toNat / 16) (by omega)
    have h2 := digitChar_printable (c.toNat % 16) (by omega)
    simp only [List.forall_mem_cons]
    exact ⟨by decide, by decide, by decide, by decide, h1, h2, fun _ hd => by cases hd⟩
  · rw [List.mem_singleton.1 h]
    exact ⟨by omega, id⟩

/-- The characters of a literal are its quotes and those that write its text. -/
theorem mem_encode {s : String} {d : Char} :
    d ∈ (encode s).toList ↔ d = '\x22' ∨ ∃ c ∈ s.toList, d ∈ encodeChar c := by
  rw [encode, String.toList_ofList, List.mem_cons, List.mem_append, List.mem_singleton, body, List.mem_flatMap,
    ← or_assoc, or_right_comm, or_self]

/-- A literal of a text: between two quotes, with neither a control character nor a quote or backslash that is
not escaped, and read as the text. -/
structure IsLiteral (literal text : String) : Prop where
  quoted : ∃ cs, literal.toList = '\x22' :: (cs ++ ['\x22']) ∧ Escaped cs
  printable : ∀ c ∈ literal.toList, isControl c = false
  decoded : decode? literal = some text

/-- A text without control characters has such a literal. -/
theorem isLiteral_encode {s : String} (h : ∀ c ∈ s.toList, isControl c = false) : IsLiteral (encode s) s where
  quoted := ⟨body s.toList, by rw [encode, String.toList_ofList], escaped_body _⟩
  printable c hc := by
    rcases mem_encode.1 hc with rfl | ⟨d, hd, hc⟩
    · decide
    · exact (of_mem_encodeChar hc).2 (h d hd)
  decoded := decode?_encode s

end ResourceClient.Text.Quoted
