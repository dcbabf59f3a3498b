/-
The names that a text binds at its top level: those that stand behind a word such as `function` while no bracket is
open. A text that opens and closes its own brackets binds none inside another's, whatever words it has; the field and
the registration of an endpoint are such texts.
-/
import ResourceClient.Proofs.TypeScript.Mentions

namespace ResourceClient.TypeScript

/-! ## Scopes -/

/-- The words before a name that is bound. -/
def binders : List String :=
  ["as", "class", "function", "const", "let", "var", "interface", "type", "enum", "namespace"]

def isOpening (c : Char) : Bool :=
  c == '\x7b' || c == '(' || c == '['

def isClosing (c : Char) : Bool :=
  c == '\x7d' || c == ')' || c == ']'

/-- How many brackets are open, and whether the next word is bound at the top level. -/
structure Scope where
  depth : Nat := 0
  binding : Bool := false
  deriving DecidableEq, Repr

namespace Scope

/-- Takes a lexeme, and gives the name that it binds. -/
def step (s : Scope) : Lexeme → Scope × List String
  | .word w => if s.binding then (⟨s.depth, false⟩, [w]) else (⟨s.depth, s.depth == 0 && binders.contains w⟩, [])
  | .literal => (⟨s.depth, false⟩, [])
  | .mark c =>
    (⟨if isOpening c then s.depth + 1 else if isClosing c then s.depth - 1 else s.depth, false⟩, [])

/-- Takes lexemes one after the other. -/
def run : Scope → List Lexeme → Scope × List String
  | s, [] => (s, [])
  | s, l :: ls => ((run (s.step l).1 ls).1, (s.step l).2 ++ (run (s.step l).1 ls).2)

theorem run_append (s : Scope) (a b : List Lexeme) :
    run s (a ++ b) = ((run (run s a).1 b).1, (run s a).2 ++ (run (run s a).1 b).2) := by
  induction a generalizing s with
  | nil => rfl
  | cons l a ih => rw [List.cons_append, run, ih, run, List.append_assoc]

end Scope

/-- The names that a text binds at its top level, in order. -/
def bindings (text : String) : List String :=
  (Scope.run {} (lexemes text)).2

/-! ## Balanced texts -/

/-- The brackets that lexemes leave open, with `k` open before; none, if one more is closed. -/
def nest : Nat → List Lexeme → Option Nat
  | k, [] => some k
  | k, .mark c :: ls =>
    if isOpening c then nest (k + 1) ls
    else if isClosing c then
      match k with
      | 0 => none
      | k + 1 => nest k ls
    else nest k ls
  | k, _ :: ls => nest k ls

/-- Whether a text closes the brackets that it opens, and no others. -/
def Balanced (text : String) : Prop :=
  ∃ ls, Reads text ls ∧ nest 0 ls = some 0

theorem nest_append (k : Nat) (a b : List Lexeme) : nest k (a ++ b) = (nest k a).bind (nest · b) := by
  induction a generalizing k with
  | nil => rfl
  | cons l a ih =>
    cases l with
    | word w => exact ih k
    | literal => exact ih k
    | mark c =>
      simp only [List.cons_append, nest]
      split
      · exact ih _
      · split
        · cases k with
          | zero => rfl
          | succ k => exact ih k
        · exact ih k

theorem Balanced.append {a b : String} (ha : Balanced a) (hb : Balanced b) : Balanced (a ++ b) := by
  obtain ⟨la, hra, hna⟩ := ha
  obtain ⟨lb, hrb, hnb⟩ := hb
  refine ⟨la ++ lb, hra.append hrb, ?_⟩
  rw [nest_append, hna, Option.bind_some, hnb]

theorem Balanced.ofList {cs : List Char} {ls : List Lexeme} (h : Lexing.run .code cs = (.code, ls))
    (hn : nest 0 ls = some 0) : Balanced (String.ofList cs) :=
  ⟨ls, .ofList h, hn⟩

/-- Below an open bracket nothing is bound, and the depth is what brackets make of it. -/
theorem Scope.run_of_nest {ls : List Lexeme} {k k' : Nat} (h : nest k ls = some k') (d : Nat) :
    Scope.run ⟨k + (d + 1), false⟩ ls = (⟨k' + (d + 1), false⟩, []) := by
  induction ls generalizing k with
  | nil =>
    cases h
    rfl
  | cons l ls ih =>
    cases l with
    | word w => exact Prod.ext (congrArg Prod.fst (ih h)) (congrArg Prod.snd (ih h))
    | literal => exact Prod.ext (congrArg Prod.fst (ih h)) (congrArg Prod.snd (ih h))
    | mark c =>
      unfold nest at h
      simp only [Scope.run, Scope.step, List.nil_append]
      split at h
      · rename_i hopen
        have hstep := ih h
        rw [if_pos hopen, Nat.add_right_comm, hstep]
      · rename_i hopen
        rw [if_neg hopen]
        split at h
        · rename_i hclose
          rw [if_pos hclose]
          cases k with
          | zero => cases h
          | succ k =>
            have hdepth : k + 1 + (d + 1) - 1 = k + (d + 1) := by omega
            rw [hdepth, ih h]
        · rename_i hclose
          rw [if_neg hclose, ih h]

/-! ## Parts of a file -/

/-- Whether a text, as a part of a file, leads from one depth of brackets to another and binds some names. -/
def Binds (d : Nat) (text : String) (d' : Nat) (names : List String) : Prop :=
  ∃ ls, Reads text ls ∧ Scope.run ⟨d, false⟩ ls = (⟨d', false⟩, names)

/-- What the characters of a text bind from a depth on. -/
def bindingsFrom? (d : Nat) (cs : List Char) : Option (Scope × List String) :=
  match Lexing.run .code cs with
  | (.code, ls) => some (Scope.run ⟨d, false⟩ ls)
  | _ => none

namespace Binds

variable {a b : String} {d d' d'' : Nat} {na nb : List String}

theorem bindings_eq (h : Binds 0 a d na) : bindings a = na := by
  obtain ⟨ls, hr, hs⟩ := h
  unfold bindings
  rw [hr.lexemes_eq]
  exact congrArg Prod.snd hs

theorem ofList {cs : List Char} (h : bindingsFrom? d cs = some (⟨d', false⟩, na)) :
    Binds d (String.ofList cs) d' na := by
  unfold bindingsFrom? at h
  split at h
  · rename_i ls hr
    exact ⟨ls, .ofList hr, Option.some.inj h⟩
  · cases h

theorem append (ha : Binds d a d' na) (hb : Binds d' b d'' nb) : Binds d (a ++ b) d'' (na ++ nb) := by
  obtain ⟨la, hra, hsa⟩ := ha
  obtain ⟨lb, hrb, hsb⟩ := hb
  refine ⟨la ++ lb, hra.append hrb, ?_⟩
  rw [Scope.run_append, hsa, hsb]

theorem empty (d : Nat) : Binds d "" d [] :=
  ⟨[], rfl, rfl⟩

theorem of_balanced (h : Balanced a) (d : Nat) : Binds (d + 1) a (d + 1) [] := by
  obtain ⟨ls, hr, hn⟩ := h
  have hrun := Scope.run_of_nest hn d
  rw [Nat.zero_add] at hrun
  exact ⟨ls, hr, hrun⟩

/-- Balanced parts bind nothing below an open bracket. -/
theorem join {α : Type} {f : α → String} {xs : List α} (h : ∀ x ∈ xs, Balanced (f x)) (d : Nat) :
    Binds (d + 1) (String.join (xs.map f)) (d + 1) [] := by
  have hall := join_of_parts (P := fun text names => Binds (d + 1) text (d + 1) names) (g := fun _ => []) (empty _)
    append fun x hx => of_balanced (h x hx) d
  rwa [List.flatMap_eq_nil_iff.2 fun _ _ => rfl] at hall

end Binds

/-! ## Generated texts -/

theorem balanced_renderField {e : Endpoint} (h : isShaped e.name.toList = true) (typed : Bool) :
    Balanced (renderField e typed) :=
  ⟨_, reads_renderField h typed, rfl⟩

theorem balanced_renderRegistration {e : Endpoint} (h : isShaped e.name.toList = true) :
    Balanced (renderRegistration e) :=
  ⟨_, reads_renderRegistration h, rfl⟩

set_option maxRecDepth 4000 in
theorem balanced_createdMethod (v : Verb) : Balanced (createdMethod v ++ "\n") := by
  cases v <;> unfold createdMethod Verb.proxyMethod Verb.name Verb.sendsBody <;>
    simp only [Bool.false_eq_true, if_true, if_false, -String.reduceAppend] <;>
    repeat rw [← String.ofList_append]
  all_goals exact .ofList (by rfl) (by rfl)

/-- Balanced lines for the verbs, between fixed lines. -/
theorem binds_lines {before after : List (List Char)} {d d' d'' : Nat} {na nb : List String} {line : Verb → String}
    (hbefore : bindingsFrom? d (before.flatMap (· ++ ['\n'])) = some (⟨d' + 1, false⟩, na))
    (hline : ∀ v, Balanced (line v ++ "\n"))
    (hafter : bindingsFrom? (d' + 1) (after.flatMap (· ++ ['\n'])) = some (⟨d'', false⟩, nb)) :
    Binds d (unlines (before.map String.ofList ++ Verb.all.map line ++ after.map String.ofList)) d'' (na ++ nb) := by
  have hverbs : Binds (d' + 1) (unlines (Verb.all.map line)) (d' + 1) [] := by
    unfold unlines
    rw [List.map_map]
    exact .join (fun v _ => hline v) d'
  rw [unlines_append, unlines_append, unlines_ofList, unlines_ofList]
  have hall := ((Binds.ofList hbefore).append hverbs).append (.ofList hafter)
  rwa [List.append_nil] at hall

set_option maxRecDepth 4000 in
theorem binds_sharedFunctions : Binds 0 sharedFunctions 0 ["create", "formatUrl", "encodeQueryData"] :=
  @binds_lines [_, _, _, _, _, _, _] [_, _, _, _, _, _, _, _, _, _, _, _, _, _, _, _, _, _, _, _, _] 0 2 0 [_] [_, _] _
    (by rfl) balanced_createdMethod (by rfl)

end ResourceClient.TypeScript
