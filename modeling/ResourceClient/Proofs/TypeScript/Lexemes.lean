/-
Reading TypeScript as the generated files use it: words, string literals and marks, with line comments left
out. What a file exports, what it takes from the interfaces file and which members its class has is read off
the lexemes, so that no text in a literal or a comment counts.

The lexemes of a text are read by an automaton. A text that is read from code to code adds its lexemes to
those around it, and one whose last lexeme is a barrier adds its mentions; so a file is read part by part.
-/
import ResourceClient.Proofs.TypeScript.Parameters
import ResourceClient.Text.Blank
import ResourceClient.Text.Quoted
import Mathlib.Data.List.Basic

namespace ResourceClient.TypeScript

/-! ## Lexemes -/

inductive Lexeme
  | word (text : String)
  /-- A string literal, whatever its text. -/
  | literal
  | mark (c : Char)
  deriving DecidableEq, Repr

/-- How far a text has been read. -/
inductive Lexing
  | code
  | word (seen : List Char)
  /-- After a slash that may begin a comment. -/
  | slash
  | comment
  | literal (quote : Char)
  /-- After a backslash in a literal. -/
  | escape (quote : Char)
  deriving DecidableEq, Repr

namespace Lexing

/-- Reads a character of code. -/
def inCode (c : Char) : Lexing × List Lexeme :=
  if isNameChar c then (.word [c], [])
  else if c = '\x22' ∨ c = '\x27' ∨ c = '\x60' then (.literal c, [])
  else if c = '/' then (.slash, [])
  else if Text.isBlank c then (.code, [])
  else (.code, [.mark c])

/-- Reads a character, and gives the lexemes it completes. -/
def step : Lexing → Char → Lexing × List Lexeme
  | .code, c => inCode c
  | .word seen, c =>
    if isNameChar c then (.word (c :: seen), [])
    else ((inCode c).1, .word (String.ofList seen.reverse) :: (inCode c).2)
  | .slash, c => if c = '/' then (.comment, []) else ((inCode c).1, .mark '/' :: (inCode c).2)
  | .comment, c => (if c = '\n' then .code else .comment, [])
  | .literal quote, c =>
    if c = '\\' then (.escape quote, []) else if c = quote then (.code, [.literal]) else (.literal quote, [])
  | .escape quote, _ => (.literal quote, [])

/-- Reads characters one after the other. -/
def run : Lexing → List Char → Lexing × List Lexeme
  | s, [] => (s, [])
  | s, c :: cs => ((run (s.step c).1 cs).1, (s.step c).2 ++ (run (s.step c).1 cs).2)

/-- The lexeme that the end of a text completes. -/
def finish : Lexing → List Lexeme
  | .word seen => [.word (String.ofList seen.reverse)]
  | .slash => [.mark '/']
  | _ => []

theorem run_append (s : Lexing) (a b : List Char) :
    run s (a ++ b) = ((run (run s a).1 b).1, (run s a).2 ++ (run (run s a).1 b).2) := by
  induction a generalizing s with
  | nil => rfl
  | cons c a ih =>
    rw [List.cons_append, run, ih, run, List.append_assoc]

/-- A word is read on as long as its characters go. -/
theorem run_word_append (seen : List Char) {w : List Char} (h : w.all isNameChar = true) (cs : List Char) :
    run (.word seen) (w ++ cs) = run (.word (w.reverse ++ seen)) cs := by
  induction w generalizing seen with
  | nil => rfl
  | cons c w ih =>
    rw [List.all_cons, Bool.and_eq_true] at h
    have hstep : step (.word seen) c = (.word (c :: seen), []) := if_pos h.1
    rw [List.cons_append, run, hstep, ih _ h.2, List.reverse_cons, List.append_assoc]
    rfl

/-- A word ends at the first character that is none of a name. -/
theorem run_word {w : List Char} (hw : isShaped w = true) {c : Char} (hc : isNameChar c = false) (cs : List Char) :
    run .code (w ++ c :: cs) = ((run .code (c :: cs)).1, .word (String.ofList w) :: (run .code (c :: cs)).2) := by
  cases w with
  | nil => cases hw
  | cons k w =>
    rw [isShaped, Bool.and_eq_true] at hw
    have hfirst : step .code k = (.word [k], []) := if_pos (isNameChar_of_isNameStart hw.1)
    have hlast : step (.word (w.reverse ++ [k])) c =
        ((inCode c).1, .word (String.ofList (k :: w)) :: (inCode c).2) := by
      rw [step, if_neg (by simp [hc]), List.reverse_append, List.reverse_reverse]
      rfl
    rw [List.cons_append, run, hfirst, run_word_append _ hw.2, run, hlast]
    rfl

theorem run_escaped (quote c : Char) (cs : List Char) :
    run (.literal quote) ('\\' :: c :: cs) = run (.literal quote) cs :=
  rfl

theorem run_unescaped {quote c : Char} (hb : c ≠ '\\') (hq : c ≠ quote) (cs : List Char) :
    run (.literal quote) (c :: cs) = run (.literal quote) cs := by
  rw [run, step, if_neg hb, if_neg hq]
  rfl

/-- A literal is read on through characters that are written so that none ends it. -/
theorem run_literal {quote : Char} {write : Char → List Char}
    (h : ∀ c, run (.literal quote) (write c) = (.literal quote, [])) (hq : quote ≠ '\\') (cs : List Char) :
    run (.literal quote) (cs.flatMap write ++ [quote]) = (.code, [.literal]) := by
  induction cs with
  | nil =>
    have hstep : step (.literal quote) quote = (.code, [.literal]) := by rw [step, if_neg hq, if_pos rfl]
    rw [List.flatMap_nil, List.nil_append, run, hstep]
    rfl
  | cons c cs ih =>
    rw [List.flatMap_cons, List.append_assoc, run_append, h, ih]
    rfl

end Lexing

/-- The lexemes of a text. -/
def lexemes (text : String) : List Lexeme :=
  (Lexing.run .code text.toList).2 ++ (Lexing.run .code text.toList).1.finish

/-- Whether a text is read as some lexemes, and what follows it as code. -/
def Reads (text : String) (ls : List Lexeme) : Prop :=
  Lexing.run .code text.toList = (.code, ls)

namespace Reads

variable {a b : String} {la lb : List Lexeme}

theorem lexemes_eq (h : Reads a la) : lexemes a = la := by
  unfold lexemes
  rw [h]
  exact List.append_nil la

theorem ofList {cs : List Char} (h : Lexing.run .code cs = (.code, la)) : Reads (String.ofList cs) la := by
  unfold Reads
  rw [String.toList_ofList]
  exact h

theorem append (ha : Reads a la) (hb : Reads b lb) : Reads (a ++ b) (la ++ lb) := by
  unfold Reads at *
  rw [String.toList_append, Lexing.run_append, ha]
  simp only [hb]

/-- A name is one word, if what stands behind it is no part of it. -/
theorem name {w : String} (hw : isShaped w.toList = true) {c : Char} (hc : isNameChar c = false) {cs : List Char}
    (h : Lexing.run .code (c :: cs) = (.code, lb)) : Reads (w ++ String.ofList (c :: cs)) (.word w :: lb) := by
  unfold Reads
  rw [String.toList_append, String.toList_ofList, Lexing.run_word hw hc, h, String.ofList_toList]

/-- A literal is one lexeme, whatever its text. -/
theorem literal {quote : Char} (hstart : Lexing.inCode quote = (.literal quote, [])) (hq : quote ≠ '\\')
    {write : Char → List Char} (h : ∀ c, Lexing.run (.literal quote) (write c) = (.literal quote, []))
    (cs : List Char) : Reads (String.ofList (quote :: (cs.flatMap write ++ [quote]))) [.literal] := by
  refine ofList ?_
  rw [Lexing.run, show Lexing.step .code quote = (.literal quote, []) from hstart, Lexing.run_literal h hq]
  rfl

end Reads

/-! ## Mentions -/

/-- What a text says of a name. -/
inductive Mention
  /-- A declaration with this name is exported. -/
  | exported (name : String)
  /-- This name is taken from the interfaces file. -/
  | used (name : String)
  /-- The class has a member with this name. -/
  | member (name : String)
  deriving DecidableEq, Repr

/-- What the lexemes at the head of a list say: `export` stands before a kind of declaration and its name,
`Interfaces` with a point before a name, and `readonly` before the name of a field or of a parameter that is a
member; the constructor is a member itself. -/
def mention? : List Lexeme → Option Mention
  | .word a :: .word b :: rest =>
    if a = "readonly" then some (.member b)
    else if a = "export" then
      match rest with
      | .word name :: _ => some (.exported name)
      | _ => none
    else none
  | .word a :: .mark m :: rest =>
    if m = '(' then if a = "constructor" then some (.member a) else none
    else if m = '.' then
      match rest with
      | .word name :: _ => if a = "Interfaces" then some (.used name) else none
      | _ => none
    else none
  | _ => none

def mentions : List Lexeme → List Mention
  | [] => []
  | l :: ls => (mention? (l :: ls)).toList ++ mentions ls

def Mention.exported? : Mention → Option String
  | .exported name => some name
  | _ => none

def Mention.used? : Mention → Option String
  | .used name => some name
  | _ => none

def Mention.member? : Mention → Option String
  | .member name => some name
  | _ => none

/-- The names a text exports, in order. -/
def exports (text : String) : List String :=
  (mentions (lexemes text)).filterMap Mention.exported?

/-- The names a text takes from the interfaces file, in order. -/
def uses (text : String) : List String :=
  (mentions (lexemes text)).filterMap Mention.used?

/-- The names of the members of the class in a text, in order. -/
def members (text : String) : List String :=
  (mentions (lexemes text)).filterMap Mention.member?

/-- Whether no mention goes on behind a lexeme. -/
def Lexeme.isBarrier : Lexeme → Bool
  | .word _ => false
  | .literal => true
  | .mark m => m != '.'

theorem mention?_barrier {m : Lexeme} (hm : m.isBarrier = true) (a b : List Lexeme) :
    mention? (a ++ m :: b) = mention? (a ++ [m]) := by
  match a with
  | [] => cases m <;> first | rfl | cases hm
  | [.literal] | [.mark _] => rfl
  | [.word _] =>
    cases m with
    | word _ => cases hm
    | literal => rfl
    | mark c =>
      have hc : c ≠ '.' := by simpa [Lexeme.isBarrier] using hm
      simp only [List.cons_append, List.nil_append, mention?, if_neg hc]
  | [.word _, .word _] | [.word _, .mark _] =>
    cases m with
    | word _ => cases hm
    | literal | mark _ => rfl
  | .word _ :: .word _ :: l :: _ | .word _ :: .mark _ :: l :: _ => cases l <;> rfl
  | .word _ :: .literal :: _ | .literal :: _ :: _ | .mark _ :: _ :: _ => rfl

theorem mentions_barrier {m : Lexeme} (hm : m.isBarrier = true) (a b : List Lexeme) :
    mentions (a ++ m :: b) = mentions (a ++ [m]) ++ mentions b := by
  induction a with
  | nil =>
    have h := mention?_barrier hm [] b
    rw [List.nil_append, List.nil_append] at *
    rw [mentions, mentions, h, mentions, List.append_nil]
  | cons l a ih =>
    have h := mention?_barrier hm (l :: a) b
    rw [List.cons_append, List.cons_append] at *
    rw [mentions, mentions, h, ih, List.append_assoc]

/-- A name and a mark behind it that is part of no mention are one word and the mark, and no mention begins with them. -/
theorem Reads.name_mark {w : String} {c : Char} {cs : List Char} {ls : List Lexeme}
    (h : Reads (String.ofList (c :: cs)) ls) (hw : isShaped w.toList = true)
    (hc : Lexing.inCode c = (.code, [.mark c])) (hm : c ≠ '(' ∧ c ≠ '.') :
    Reads (w ++ String.ofList (c :: cs)) (.word w :: ls) ∧
      ∀ more, mention? (.word w :: (ls ++ more)) = none := by
  have hname : isNameChar c = false := by
    by_contra hn
    rw [Lexing.inCode, if_pos (by simpa using hn)] at hc
    cases hc
  unfold Reads at h
  rw [String.toList_ofList] at h
  refine ⟨.name hw hname h, fun more => ?_⟩
  have hfirst : ls = .mark c :: (Lexing.run .code cs).2 := by
    rw [Lexing.run, show Lexing.step .code c = (.code, [.mark c]) from hc] at h
    exact (Prod.mk.inj h).2.symm
  rw [hfirst]
  unfold mention?
  exact (if_neg hm.1).trans (if_neg hm.2)

/-! ## Parts of a file -/

section

variable {α β : Type} {P : String → List β → Prop} {f : α → String} {g : α → List β} {xs : List α}

/-- What the parts of a text tell, one after the other, if two texts tell together what each of them does. -/
theorem join_of_parts (hempty : P "" []) (happend : ∀ {a b ea eb}, P a ea → P b eb → P (a ++ b) (ea ++ eb))
    (h : ∀ x ∈ xs, P (f x) (g x)) : P (String.join (xs.map f)) (xs.flatMap g) := by
  induction xs with
  | nil => exact hempty
  | cons x xs ih =>
    rw [List.map_cons, String.join_cons, List.flatMap_cons]
    exact happend (h x List.mem_cons_self) (ih fun y hy => h y (List.mem_cons_of_mem _ hy))

/-- The same of parts that are told apart by separators, each of them read up to the text behind it. -/
theorem intercalate_of_parts {sep ending : String} (hend : P ending [])
    (happend : ∀ {a b ea eb}, P a ea → P b eb → P (a ++ b) (ea ++ eb))
    (h : ∀ x ∈ xs, P (f x ++ sep) (g x) ∧ P (f x ++ ending) (g x)) :
    P (sep.intercalate (xs.map f) ++ ending) (xs.flatMap g) := by
  induction xs with
  | nil => rwa [List.map_nil, String.intercalate_nil, String.empty_append]
  | cons x xs ih =>
    have hx := h x List.mem_cons_self
    have hxs := ih fun y hy => h y (List.mem_cons_of_mem _ hy)
    cases xs with
    | nil =>
      rw [List.map_singleton, String.intercalate_singleton, List.flatMap_singleton]
      exact hx.2
    | cons y ys =>
      rw [List.map_cons, List.map_cons, String.intercalate_cons_cons, String.append_assoc, List.flatMap_cons]
      exact happend hx.1 hxs

end

/-- Whether a text, as a part of a file, makes some mentions by itself, whatever stands around it. -/
def Finds (text : String) (ms : List Mention) : Prop :=
  ∃ ls, Reads text ls ∧ ∀ more, mentions (ls ++ more) = ms ++ mentions more

/-- The mentions of a text that ends at a barrier. -/
def mentionsOf? (cs : List Char) : Option (List Mention) :=
  match Lexing.run .code cs with
  | (.code, ls) => if ls.getLast?.all Lexeme.isBarrier then some (mentions ls) else none
  | _ => none

namespace Finds

variable {a b : String} {ma mb : List Mention} {cs ds : List Char}

theorem mentions_eq (h : Finds a ma) : mentions (lexemes a) = ma := by
  obtain ⟨ls, hr, hm⟩ := h
  have hnil := hm []
  rw [List.append_nil] at hnil
  rw [hr.lexemes_eq, hnil]
  exact List.append_nil ma

/-- A text that ends at a barrier makes its mentions by itself. -/
theorem of_reads {ls : List Lexeme} (h : Reads a ls) (hlast : ls.getLast?.all Lexeme.isBarrier = true)
    (hm : mentions ls = ma) : Finds a ma := by
  subst hm
  refine ⟨ls, h, fun more => ?_⟩
  rcases List.eq_nil_or_concat' ls with rfl | ⟨init, m, rfl⟩
  · rfl
  · rw [List.getLast?_concat, Option.all_some] at hlast
    rw [List.append_assoc, List.singleton_append, mentions_barrier hlast]

theorem ofList (h : mentionsOf? cs = some ma) : Finds (String.ofList cs) ma := by
  unfold mentionsOf? at h
  split at h
  · rename_i ls hr
    split at h
    · rename_i hlast
      cases h
      exact of_reads (.ofList hr) hlast rfl
    · cases h
  · cases h

theorem empty : Finds "" [] :=
  ⟨[], rfl, fun _ => rfl⟩

theorem append (ha : Finds a ma) (hb : Finds b mb) : Finds (a ++ b) (ma ++ mb) := by
  obtain ⟨la, hra, hma⟩ := ha
  obtain ⟨lb, hrb, hmb⟩ := hb
  refine ⟨la ++ lb, hra.append hrb, fun more => ?_⟩
  rw [List.append_assoc, hma, hmb, List.append_assoc]

/-- What the parts of a text mention, one after the other. -/
theorem join {α : Type} {f : α → String} {g : α → List Mention} {xs : List α} (h : ∀ x ∈ xs, Finds (f x) (g x)) :
    Finds (String.join (xs.map f)) (xs.flatMap g) :=
  join_of_parts empty append h

/-- A text of parts that mention nothing mentions nothing. -/
theorem join_silent {α : Type} {f : α → String} {xs : List α} (h : ∀ x ∈ xs, Finds (f x) []) :
    Finds (String.join (xs.map f)) [] := by
  have hjoin := join h
  rwa [List.flatMap_eq_nil_iff.2 fun _ _ => rfl] at hjoin

/-- What some texts mention that are told apart by separators, and that mention nothing. -/
theorem intercalate {sep ending : String} {ss : List String} (hend : Finds ending [])
    (h : ∀ s ∈ ss, Finds (s ++ sep) [] ∧ Finds (s ++ ending) []) : Finds (sep.intercalate ss ++ ending) [] := by
  have hall := intercalate_of_parts (f := id) (g := fun _ => []) hend append h
  rwa [List.map_id, List.flatMap_eq_nil_iff.2 fun _ _ => rfl] at hall

/-- A name mentions nothing if a mark stands behind it that is part of no mention. -/
theorem name {w : String} (hw : isShaped w.toList = true) {c : Char} (hc : Lexing.inCode c = (.code, [.mark c]))
    (hm : c ≠ '(' ∧ c ≠ '.') (h : mentionsOf? (c :: cs) = some mb) : Finds (w ++ String.ofList (c :: cs)) mb := by
  obtain ⟨ls, hr, hls⟩ := ofList h
  obtain ⟨hread, hnone⟩ := hr.name_mark hw hc hm
  refine ⟨.word w :: ls, hread, fun more => ?_⟩
  rw [List.cons_append, mentions, hnone]
  exact hls more

end Finds

end ResourceClient.TypeScript
