/-
String literals by the grammar of ECMAScript, and the keys of the fields that stand on the line of a method. A key is
a literal of its name, and so the field is one of this name, exactly when the name has no line break: a quote and a
backslash are escaped in a single-quoted literal, and a line feed or a carriage return is not. The double-quoted
literals escape these as well.
-/
import ResourceClient.Proofs.TypeScript.Mentions

namespace ResourceClient.TypeScript

open Text

/-! ## The grammar -/

/-- The code units that UTF-16 has for a code point. -/
def codeUnits (n : Nat) : List Nat :=
  if n < 0x10000 then [n] else [0xD800 + (n - 0x10000) / 0x400, 0xDC00 + (n - 0x10000) % 0x400]

/-- A text as a value of the language, which is a sequence of code units. -/
def utf16 (cs : List Char) : List Nat :=
  cs.flatMap fun c => codeUnits c.toNat

/-- The code unit that a backslash and one of the letters and marks for it stand for. -/
def escapedUnit? : Char → Option Nat
  | '\x27' => some 0x27
  | '\x22' => some 0x22
  | '\\' => some 0x5C
  | 'b' => some 0x08
  | 't' => some 0x09
  | 'n' => some 0x0A
  | 'v' => some 0x0B
  | 'f' => some 0x0C
  | 'r' => some 0x0D
  | _ => none

/-- The line terminators. The last two of them may stand in a literal. -/
def isTerminator (c : Char) : Bool :=
  c == '\n' || c == '\r' || c == '\u2028' || c == '\u2029'

/-- What stands behind a backslash, and the code units that both write. A line terminator writes none. -/
inductive Escape : List Char → List Nat → Prop
  | single {c : Char} {n : Nat} (h : escapedUnit? c = some n) : Escape [c] [n]
  | itself {c : Char} (h : escapedUnit? c = none) (hd : c.isDigit = false) (hx : c ≠ 'x') (hu : c ≠ 'u')
      (ht : isTerminator c = false) : Escape [c] (codeUnits c.toNat)
  | twoDigits {a b : Char} {n : Nat} (h : number? 16 [a, b] = some n) : Escape ['x', a, b] [n]
  | fourDigits {a b c d : Char} {n : Nat} (h : number? 16 [a, b, c, d] = some n) : Escape ['u', a, b, c, d] [n]
  | codePoint {digits : List Char} {n : Nat} (h : number? 16 digits = some n) (hn : n ≤ 0x10FFFF) :
      Escape ('u' :: '\x7b' :: (digits ++ ['\x7d'])) (codeUnits n)
  | terminator {c : Char} (h : isTerminator c = true) : Escape [c] []
  | twoTerminators : Escape ['\r', '\n'] []

/-- What stands between the quotes of a literal, and its value. -/
inductive Body (quote : Char) : List Char → List Nat → Prop
  | nil : Body quote [] []
  | plain {c : Char} {cs : List Char} {us : List Nat} (hq : c ≠ quote) (hs : c ≠ '\\') (hn : c ≠ '\n') (hr : c ≠ '\r')
      (h : Body quote cs us) : Body quote (c :: cs) (codeUnits c.toNat ++ us)
  | escape {es cs : List Char} {ns us : List Nat} (he : Escape es ns) (h : Body quote cs us) :
      Body quote ('\\' :: (es ++ cs)) (ns ++ us)
  | null {cs : List Char} {us : List Nat} (hd : ∀ c, cs.head? = some c → c.isDigit = false) (h : Body quote cs us) :
      Body quote ('\\' :: '0' :: cs) (0 :: us)

/-- A string literal between two quotes, and its value. -/
def IsLiteral (quote : Char) (text : String) (value : List Nat) : Prop :=
  ∃ cs, text.toList = quote :: (cs ++ [quote]) ∧ Body quote cs value

/-! ## Bodies -/

section

variable {quote c : Char} {cs rest : List Char} {n : Nat} {us value : List Nat}

theorem Escape.ne_nil {es : List Char} {ns : List Nat} (h : Escape es ns) : es ≠ [] := by
  cases h <;> exact List.cons_ne_nil _ _

theorem Escape.single_inv {es : List Char} {ns : List Nat} (h : Escape es ns) (hc : escapedUnit? c = some n)
    (ht : es ++ cs = c :: rest) : ns = [n] ∧ cs = rest := by
  have hterminator : isTerminator c = false := by
    by_contra hterm
    simp only [isTerminator, Bool.not_eq_false, Bool.or_eq_true, beq_iff_eq] at hterm
    rcases hterm with ((rfl | rfl) | rfl) | rfl <;> cases hc
  cases h <;> obtain ⟨rfl, hrest⟩ := List.cons.inj ht
  case single h => exact ⟨congrArg ([·]) (Option.some.inj (h.symm.trans hc)), hrest⟩
  case itself h _ _ _ _ => cases h.symm.trans hc
  case terminator h => cases hterminator.symm.trans h
  all_goals cases hc

/-- A character that is no backslash stands for itself. -/
theorem Body.plain_inv (h : Body quote (c :: cs) us) (hs : c ≠ '\\') :
    (c ≠ '\n' ∧ c ≠ '\r') ∧ ∃ more, us = codeUnits c.toNat ++ more ∧ Body quote cs more := by
  cases h with
  | plain _ _ hn hr h => exact ⟨⟨hn, hr⟩, _, rfl, h⟩
  | escape _ _ => exact absurd rfl hs
  | null _ _ => exact absurd rfl hs

theorem Body.escape_inv (h : Body quote ('\\' :: c :: cs) us) (hc : escapedUnit? c = some n) :
    ∃ more, us = n :: more ∧ Body quote cs more := by
  generalize ht : '\\' :: c :: cs = text at h
  cases h with
  | nil => cases ht
  | plain _ hs => exact absurd (List.cons.inj ht).1.symm hs
  | @escape es cs' ns us' he h =>
    obtain ⟨rfl, rfl⟩ := he.single_inv hc (List.cons.inj ht).2.symm
    exact ⟨us', rfl, h⟩
  | null =>
    cases ht
    cases hc

theorem Body.not_backslash (h : Body quote ['\\'] us) : False := by
  generalize ht : ['\\'] = text at h
  cases h with
  | nil => cases ht
  | plain _ hs => exact hs (List.cons.inj ht).1.symm
  | escape he => exact he.ne_nil (List.append_eq_nil_iff.1 (List.cons.inj ht).2.symm).1
  | null => cases ht

theorem Body.quote_inv (h : Body quote (quote :: cs) us) (hs : quote ≠ '\\') : False := by
  cases h with
  | plain hq => exact hq rfl
  | escape => exact hs rfl
  | null => exact hs rfl

/-! ## Single quotes -/

theorem utf16_cons (c : Char) (cs : List Char) : utf16 (c :: cs) = codeUnits c.toNat ++ utf16 cs :=
  List.flatMap_cons

theorem escapedUnit?_quoted (hc : c = '\\' ∨ c = '\x27') :
    escapedUnit? c = some c.toNat ∧ codeUnits c.toNat = [c.toNat] := by
  rcases hc with rfl | rfl <;> exact ⟨rfl, rfl⟩

/-- A name without a line break is written so that it is read back. -/
theorem body_quoted {name : List Char} (h : ∀ c ∈ name, c ≠ '\n' ∧ c ≠ '\r') :
    Body '\x27' (name.flatMap quoteChar) (utf16 name) := by
  induction name with
  | nil => exact .nil
  | cons c name ih =>
    have hrest := ih fun d hd => h d (List.mem_cons_of_mem _ hd)
    obtain ⟨hn, hr⟩ := h c List.mem_cons_self
    rw [List.flatMap_cons, utf16_cons, quoteChar]
    split
    · rename_i hc
      have hunit := escapedUnit?_quoted hc
      rw [hunit.2]
      exact .escape (.single hunit.1) hrest
    · rename_i hc
      exact .plain (fun hq => hc (.inr hq)) (fun hs => hc (.inl hs)) hn hr hrest

/-- What is read of the writing of a name, up to the quote that ends it, is the name, which then has no line break. The
induction is on the name, with what may have been read of it and what follows the quote left free. -/
theorem Body.of_quoted {name more : List Char} (h : Body '\x27' cs us)
    (ht : cs ++ '\x27' :: rest = name.flatMap quoteChar ++ '\x27' :: more) :
    (∀ c ∈ name, c ≠ '\n' ∧ c ≠ '\r') ∧ us = utf16 name ∧ rest = more := by
  induction name generalizing cs us with
  | nil =>
    cases cs with
    | nil =>
      cases h
      exact ⟨fun _ hc => (nomatch hc), rfl, (List.cons.inj ht).2⟩
    | cons d cs =>
      obtain ⟨rfl, -⟩ := List.cons.inj ht
      exact (h.quote_inv (by decide)).elim
  | cons c name ih =>
    rw [List.flatMap_cons, List.append_assoc, quoteChar] at ht
    split at ht
    · rename_i hc
      have hunit := escapedUnit?_quoted hc
      match cs with
      | [] => cases (List.cons.inj ht).1
      | [d] =>
        obtain ⟨rfl, -⟩ := List.cons.inj ht
        exact h.not_backslash.elim
      | d :: e :: cs =>
        obtain ⟨rfl, hsecond⟩ := List.cons.inj ht
        obtain ⟨rfl, htail⟩ := List.cons.inj hsecond
        obtain ⟨us, rfl, hrest⟩ := h.escape_inv hunit.1
        obtain ⟨hname, rfl, hmore⟩ := ih hrest htail
        refine ⟨List.forall_mem_cons.2 ⟨?_, hname⟩, ?_, hmore⟩
        · rcases hc with rfl | rfl <;> decide
        · rw [utf16_cons, hunit.2]
          rfl
    · rename_i hc
      match cs with
      | [] => exact absurd (List.cons.inj ht).1.symm fun hq => hc (.inr hq)
      | d :: cs =>
        obtain ⟨rfl, htail⟩ := List.cons.inj ht
        obtain ⟨hbreak, us, rfl, hrest⟩ := h.plain_inv fun hs => hc (.inl hs)
        obtain ⟨hname, rfl, hmore⟩ := ih hrest htail
        exact ⟨List.forall_mem_cons.2 ⟨hbreak, hname⟩, rfl, hmore⟩

end

theorem isLiteral_quoted_iff {name : String} {value : List Nat} :
    IsLiteral '\x27' (String.ofList ('\x27' :: (name.toList.flatMap quoteChar ++ ['\x27']))) value ↔
      IsLine name ∧ value = utf16 name.toList := by
  unfold IsLiteral
  rw [String.toList_ofList]
  constructor
  · rintro ⟨cs, ht, hbody⟩
    obtain ⟨hname, hvalue, -⟩ := hbody.of_quoted (List.cons.inj ht).2.symm
    exact ⟨hname, hvalue⟩
  · rintro ⟨hname, rfl⟩
    exact ⟨_, rfl, body_quoted hname⟩

/-! ## Double quotes -/

theorem Body.encodeChar_append {cs : List Char} {us : List Nat} (h : Body '\x22' cs us) (c : Char) :
    Body '\x22' (Quoted.encodeChar c ++ cs) (codeUnits c.toNat ++ us) := by
  unfold Quoted.encodeChar
  split_ifs with hquote hslash hb hf hn hr ht hlow
  · subst hquote; exact .escape (.single rfl) h
  · subst hslash; exact .escape (.single rfl) h
  · subst hb; exact .escape (.single rfl) h
  · subst hf; exact .escape (.single rfl) h
  · subst hn; exact .escape (.single rfl) h
  · subst hr; exact .escape (.single rfl) h
  · subst ht; exact .escape (.single rfl) h
  · have hdigits := Quoted.unit?_digits c.toNat hlow
    obtain ⟨n, hnumber, heq⟩ := Option.map_eq_some_iff.1 hdigits
    cases heq
    have hunits : codeUnits c.toNat = [c.toNat] := if_pos (by omega)
    rw [hunits]
    exact .escape (.fourDigits hnumber) h
  · exact .plain hquote hslash hn hr h

/-- Every text has a double-quoted literal, line breaks and all. -/
theorem isLiteral_encode (s : String) : IsLiteral '\x22' (Quoted.encode s) (utf16 s.toList) := by
  have hbody : ∀ cs, Body '\x22' (Quoted.body cs) (utf16 cs) := by
    intro cs
    induction cs with
    | nil => exact .nil
    | cons c cs ih =>
      rw [utf16_cons]
      exact ih.encodeChar_append c
  exact ⟨Quoted.body s.toList, by rw [Quoted.encode, String.toList_ofList], hbody s.toList⟩

end ResourceClient.TypeScript
