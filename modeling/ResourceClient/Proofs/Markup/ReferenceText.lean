/-
Values and the texts that stand for them between double quotes. A text writes some characters as they are
and others, among them all that mean something in markup or end a line, by references; whatever references
are chosen, the text is decoded into the value.
-/
import ResourceClient.Markup.Reference
import ResourceClient.Proofs.Text.Ascii
import ResourceClient.Proofs.Text.Blank

namespace ResourceClient.Markup

open Text

/-! ## Characters of references -/

theorem isAlphanum_of_digit? {base v : Nat} {c : Char} (h : number?.digit? base c = some v) :
    c.isAlphanum = true := by
  unfold number?.digit? at h
  simp only [Option.filter_eq_some_iff] at h
  obtain ⟨h, -⟩ := h
  rw [isAlphanum_iff]
  split at h
  · rename_i hd
    exact .inr (.inr (isDigit_iff.1 hd))
  · split at h
    · rename_i hl
      have h1 : 97 ≤ c.toNat := hl.1
      have h2 : c.toNat ≤ 102 := hl.2
      omega
    · split at h
      · rename_i hl
        have h1 : 65 ≤ c.toNat := hl.1
        have h2 : c.toNat ≤ 70 := hl.2
        omega
      · cases h

theorem isAlphanum_of_number? {base n : Nat} {digits : List Char} (h : number? base digits = some n) :
    ∀ c ∈ digits, c.isAlphanum = true := by
  unfold number? at h
  split at h
  · cases h
  · -- from whatever number the digits go on
    have key : ∀ (ds : List Char) (acc m : Nat),
        ds.foldlM (fun n c => (number?.digit? base c).map (n * base + ·)) acc = some m →
        ∀ c ∈ ds, c.isAlphanum = true := by
      intro ds
      induction ds with
      | nil => intro acc m _ c hc; cases hc
      | cons d ds ih =>
        intro acc m hm c hc
        rw [List.foldlM_cons] at hm
        obtain ⟨next, hn, hm⟩ := Option.bind_eq_some_iff.1 hm
        obtain ⟨v, hv, -⟩ := Option.map_eq_some_iff.1 hn
        rcases List.mem_cons.1 hc with rfl | hc
        · exact isAlphanum_of_digit? hv
        · exact ih next m hm c hc
    exact key digits 0 n h

/-- The characters that can stand between the ampersand and the semicolon of a reference. -/
def isReferenceChar (c : Char) : Bool :=
  c.isAlphanum || c == '#'

theorem isReferenceChar_of_referent? {name : List Char} {c : Char} (h : referent? name = some c) :
    ∀ d ∈ name, isReferenceChar d = true := by
  have hdigits : ∀ {base : Nat} {digits : List Char}, (number? base digits).bind scalar? = some c →
      ∀ d ∈ digits, isReferenceChar d = true := by
    intro base digits hb d hd
    obtain ⟨n, hn, -⟩ := Option.bind_eq_some_iff.1 hb
    simp [isReferenceChar, isAlphanum_of_number? hn d hd]
  unfold referent? at h
  split at h
  · exact List.all_eq_true.1 (by decide)
  · exact List.all_eq_true.1 (by decide)
  · exact List.all_eq_true.1 (by decide)
  · exact List.all_eq_true.1 (by decide)
  · exact List.all_eq_true.1 (by decide)
  · intro d hd
    rcases List.mem_cons.1 hd with rfl | hd
    · decide
    · rcases List.mem_cons.1 hd with rfl | hd
      · decide
      · exact hdigits h d hd
  · intro d hd
    rcases List.mem_cons.1 hd with rfl | hd
    · decide
    · exact hdigits h d hd
  · cases h

/-! ## Texts of values -/

/-- The characters that a text may have in its value's place: those without a meaning in markup that end
no line. -/
def isPlain (c : Char) : Bool :=
  c != '&' && c != '<' && c != '>' && c != '\x22' && c != '\n'

/-- The texts for a value: each character as it is, when it is plain, or by any reference to it. -/
inductive Writes : List Char → List Char → Prop
  | nil : Writes [] []
  | plain {c : Char} {value text : List Char} (hc : isPlain c = true) (h : Writes value text) :
      Writes (c :: value) (c :: text)
  | reference {c : Char} {value text : List Char} (name : List Char) (hr : referent? name = some c)
      (h : Writes value text) : Writes (c :: value) ('&' :: (name ++ ';' :: text))

/-- How a character is written that is only told apart where it has to be. -/
def escapeChar (c : Char) : List Char :=
  if c = '&' then "&amp;".toList
  else if c = '<' then "&lt;".toList
  else if c = '>' then "&gt;".toList
  else if c = '\x22' then "&quot;".toList
  else if c = '\n' then "&#10;".toList
  else [c]

/-- Every value has a text. -/
theorem writes_escape (value : List Char) : Writes value (value.flatMap escapeChar) := by
  induction value with
  | nil => exact .nil
  | cons c value ih =>
    rw [List.flatMap_cons]
    by_cases h1 : c = '&'
    · subst h1; exact .reference "amp".toList rfl ih
    by_cases h2 : c = '<'
    · subst h2; exact .reference "lt".toList rfl ih
    by_cases h3 : c = '>'
    · subst h3; exact .reference "gt".toList rfl ih
    by_cases h4 : c = '\x22'
    · subst h4; exact .reference "quot".toList rfl ih
    by_cases h5 : c = '\n'
    · subst h5; exact .reference "#10".toList (by decide +kernel) ih
    have he : escapeChar c = [c] := by simp [escapeChar, h1, h2, h3, h4, h5]
    rw [he]
    exact .plain (by simp [isPlain, h1, h2, h3, h4, h5]) ih

/-- The characters that occur in texts. -/
def isTextChar (c : Char) : Bool :=
  c != '<' && c != '>' && c != '\x22' && c != '\n'

theorem isTextChar_of_isReferenceChar {c : Char} (h : isReferenceChar c = true) : isTextChar c = true := by
  by_contra hn
  simp only [isTextChar, Bool.and_eq_true, bne_iff_ne, not_and_or, not_not] at hn
  rcases hn with ((rfl | rfl) | rfl) | rfl <;> exact absurd h (by decide)

theorem Writes.isTextChar {value text : List Char} (h : Writes value text) :
    ∀ c ∈ text, isTextChar c = true := by
  induction h with
  | nil => intro c hc; cases hc
  | @plain c value text hc h ih =>
    intro d hd
    rcases List.mem_cons.1 hd with rfl | hd
    · simp only [isPlain, Bool.and_eq_true] at hc
      simp [Markup.isTextChar, hc]
    · exact ih d hd
  | @reference c value text name hr h ih =>
    intro d hd
    rcases List.mem_cons.1 hd with rfl | hd
    · decide
    · rcases List.mem_append.1 hd with hd | hd
      · exact isTextChar_of_isReferenceChar (isReferenceChar_of_referent? hr d hd)
      · rcases List.mem_cons.1 hd with rfl | hd
        · decide
        · exact ih d hd

/-! ## Decoding -/

theorem reference?_append {name : List Char} (h : ∀ c ∈ name, isReferenceChar c = true) (rest : List Char) :
    reference? (name ++ ';' :: rest) = some (name, rest) := by
  have hname : ∀ c ∈ name, (c != ';' && c != '&') = true := by
    intro c hc
    by_contra hn
    simp only [Bool.and_eq_true, bne_iff_ne, not_and_or, not_not] at hn
    rcases hn with rfl | rfl <;> exact absurd (h _ hc) (by decide)
  unfold reference?
  rw [dropWhile_append_cons_of_all hname (by decide)]
  simp only
  rw [takeWhile_append_cons hname (by decide)]

theorem decode?_cons_plain {c : Char} (h : c ≠ '&') (text : List Char) :
    decode? (c :: text) = (decode? text).map (c :: ·) := by
  rw [decode?, if_neg h]

theorem decode?_reference {name : List Char} {c : Char} (hr : referent? name = some c) (text : List Char) :
    decode? ('&' :: (name ++ ';' :: text)) = (decode? text).map (c :: ·) := by
  have href := reference?_append (isReferenceChar_of_referent? hr) text
  rw [decode?, if_pos rfl]
  split
  · rename_i name' rest hsome
    rw [href] at hsome
    cases hsome
    rw [hr]
    cases decode? text <;> rfl
  · rename_i hnone
    rw [href] at hnone
    cases hnone

/-- A text is decoded into the value it is for. -/
theorem Writes.decode? {value text : List Char} (h : Writes value text) : decode? text = some value := by
  induction h with
  | nil => rw [Markup.decode?]
  | @plain c value text hc h ih =>
    have hne : c ≠ '&' := by rintro rfl; exact absurd hc (by decide)
    rw [decode?_cons_plain hne, ih]
    rfl
  | @reference c value text name hr h ih =>
    rw [decode?_reference hr, ih]
    rfl

theorem Writes.valueOf {value text : List Char} (h : Writes value text) : valueOf text = value := by
  rw [Markup.valueOf, h.decode?]
  rfl

end ResourceClient.Markup
