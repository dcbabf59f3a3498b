/-
Filling by position. The leftmost matches of the pattern of slots cut any template, and the arguments are put
behind the gaps in one pass, whatever they hold. Where every brace that opens is that of a slot, this is what
filling the first slot again and again comes to, so the arguments may come in any number of portions.
-/
import ResourceClient.Proofs.Uri.Placement

namespace ResourceClient.Template

open Text

variable {cs gap name more tail arg url : List Char} {parts : List (List Char × List Char)}
  {args xs ys : List (List Char)}

/-! ## Matches -/

/-- The matches lose nothing of the text. -/
theorem Matches.eq_weave (h : Matches cs parts tail) : cs = weave parts tail := by
  induction h with
  | nil h => rw [weave_nil]
  | cons hn hg h ih => rw [weave_cons, ← ih]

theorem forall_suffix_cons {good : List Char → Prop} {c : Char} (hc : good (c :: cs))
    (h : ∀ a b, cs = a ++ b → good b) : ∀ a b, c :: cs = a ++ b → good b := by
  intro a b he
  cases a with
  | nil =>
    rw [List.nil_append] at he
    exact he ▸ hc
  | cons d a => exact h a b (List.cons.inj he).2

/-- A character at which no match starts belongs to the first gap. -/
theorem Matches.exists_cons {c : Char} (hc : ¬StartsSlot (c :: cs)) (h : Matches cs parts tail) :
    ∃ parts tail, Matches (c :: cs) parts tail := by
  cases h with
  | nil h => exact ⟨[], c :: cs, .nil (forall_suffix_cons hc h)⟩
  | @cons gap name more tail parts hn hg h =>
    exact ⟨_, _, @Matches.cons (c :: gap) _ _ _ _ hn (forall_suffix_cons (fun _ => hc) hg) h⟩

theorem exists_matches (cs : List Char) : ∃ parts tail, Matches cs parts tail := by
  fun_induction pieces cs with
  | case1 =>
    refine ⟨[], [], .nil fun a b he => ?_⟩
    rintro ⟨name, more, -, rfl⟩
    simp at he
  | case2 cs name rest h _ ih =>
    obtain ⟨parts, tail, ih⟩ := ih
    refine ⟨([], name) :: parts, tail, ?_⟩
    rw [slot?_chars h]
    exact @Matches.cons [] _ _ _ _ (isName_of_slot? h)
      (fun a b he hb => absurd (List.append_eq_nil_iff.1 he.symm).2 hb) ih
  | case3 cs hnone ih =>
    obtain ⟨parts, tail, ih⟩ := ih
    refine ih.exists_cons ?_
    rintro ⟨name, more, hn, he⟩
    rw [(List.cons.inj he).2, slot?_append hn] at hnone
    cases hnone
  | case4 c cs hc ih =>
    obtain ⟨parts, tail, ih⟩ := ih
    refine ih.exists_cons ?_
    rintro ⟨name, more, -, he⟩
    exact hc (List.cons.inj he).1

/-! ## Arguments without opening braces -/

/-- A text in which every brace that opens is that of a slot. -/
def SlotsOnly (cs : List Char) : Prop :=
  ∀ a b, cs = a ++ '{' :: b → StartsSlot ('{' :: b)

theorem Woven.slotsOnly (h : Woven parts tail) : SlotsOnly (weave parts tail) :=
  fun _ _ => h.startsSlot

/-- No brace opens in the gap before the first match. -/
theorem SlotsOnly.not_mem_gap (h : SlotsOnly (gap ++ more))
    (hg : ∀ a b, gap = a ++ b → b ≠ [] → ¬StartsSlot (b ++ more)) : '{' ∉ gap := by
  intro hm
  obtain ⟨a, b, rfl⟩ := List.append_of_mem hm
  exact hg a ('{' :: b) rfl (by simp) (h a (b ++ more) (by simp))

/-- An argument in which no brace opens leaves the slots behind it as they are. -/
theorem SlotsOnly.fill_first (h : SlotsOnly (gap ++ '{' :: (name ++ '}' :: more))) (hg : '{' ∉ gap)
    (ha : '{' ∉ arg) : SlotsOnly (gap ++ (arg ++ more)) := by
  intro a b he
  obtain ⟨m, he⟩ := append_eq_of_not_mem hg he
  obtain ⟨m, rfl⟩ := append_eq_of_not_mem ha he
  exact h (gap ++ '{' :: (name ++ '}' :: m)) b (by simp)

theorem fillPieces_nil (cs : List Char) : fillPieces (pieces cs) [] = cs := by
  obtain ⟨parts, tail, h⟩ := exists_matches cs
  rw [h.fillPieces, h.eq_weave]
  simp

/-- The first argument may be put into the first slot before the others are. -/
theorem fillPieces_first (hn : IsName name) (hg : '{' ∉ gap) (ha : '{' ∉ arg) :
    fillPieces (pieces (gap ++ '{' :: (name ++ '}' :: more))) (arg :: args) =
      fillPieces (pieces (gap ++ (arg ++ more))) args := by
  rw [pieces_append hg, pieces_append hg, pieces_slot hn, pieces_append ha, fillPieces_literals, fillPieces_literals,
    fillPieces_literals, fillPieces]

/-- Filling with some arguments and then with others is filling with all of them. -/
theorem fillPieces_append (h : SlotsOnly cs) (hx : ∀ x ∈ xs, '{' ∉ x) :
    fillPieces (pieces (fillPieces (pieces cs) xs)) ys = fillPieces (pieces cs) (xs ++ ys) := by
  induction xs generalizing cs with
  | nil => rw [fillPieces_nil, List.nil_append]
  | cons x xs ih =>
    obtain ⟨hx, hxs⟩ := List.forall_mem_cons.1 hx
    obtain ⟨parts, tail, hm⟩ := exists_matches cs
    cases hm with
    | nil ht => rw [fillPieces_tail ht, fillPieces_tail ht, fillPieces_tail ht]
    | cons hn hg hm =>
      have hgap := h.not_mem_gap hg
      rw [List.cons_append, fillPieces_first hn hgap hx, fillPieces_first hn hgap hx, ih (h.fill_first hgap hx) hxs]

/-! ## One slot after the other -/

/-- Replacing the first slot by the next argument, again and again, until either runs out. -/
inductive FilledInTurn : List Char → List (List Char) → List Char → Prop
  | slotless {cs : List Char} {args : List (List Char)} (h : ¬HasSlot cs) : FilledInTurn cs args cs
  | exhausted (cs : List Char) : FilledInTurn cs [] cs
  | first {gap name more arg url : List Char} {args : List (List Char)} (hn : IsName name)
      (hg : ∀ a b, gap = a ++ b → b ≠ [] → ¬StartsSlot (b ++ '{' :: (name ++ '}' :: more)))
      (h : FilledInTurn (gap ++ (arg ++ more)) args url) :
      FilledInTurn (gap ++ '{' :: (name ++ '}' :: more)) (arg :: args) url

theorem exists_filledInTurn (cs : List Char) (args : List (List Char)) : ∃ url, FilledInTurn cs args url := by
  induction args generalizing cs with
  | nil => exact ⟨cs, .exhausted cs⟩
  | cons arg args ih =>
    obtain ⟨parts, tail, hm⟩ := exists_matches cs
    cases hm with
    | nil h => exact ⟨cs, .slotless fun ⟨a, b, he, hs⟩ => h a b he hs⟩
    | cons hn hg hm =>
      obtain ⟨url, h⟩ := ih _
      exact ⟨url, .first hn hg h⟩

theorem FilledInTurn.eq_fillPieces (h : FilledInTurn cs args url) (hs : SlotsOnly cs)
    (ha : ∀ arg ∈ args, '{' ∉ arg) : url = fillPieces (pieces cs) args := by
  induction h with
  | slotless h => rw [fillPieces_tail fun a b he hb => h ⟨a, b, he, hb⟩]
  | exhausted cs => rw [fillPieces_nil]
  | first hn hg h ih =>
    obtain ⟨harg, hargs⟩ := List.forall_mem_cons.1 ha
    have hgap := hs.not_mem_gap hg
    rw [fillPieces_first hn hgap harg]
    exact ih (hs.fill_first hgap harg) hargs

theorem filledInTurn_iff (hs : SlotsOnly cs) (ha : ∀ arg ∈ args, '{' ∉ arg) :
    FilledInTurn cs args url ↔ url = fillPieces (pieces cs) args := by
  constructor
  · exact fun h => h.eq_fillPieces hs ha
  · rintro rfl
    obtain ⟨url, h⟩ := exists_filledInTurn cs args
    rwa [← h.eq_fillPieces hs ha]

/-- Filling puts the arguments verbatim into the places of the leftmost matches, from the left, and keeps all the
rest. Where every brace that opens is that of a slot it composes, and is what replacing the first slot again and
again comes to. -/
theorem fill_by_position (template : String) :
    (∃ parts tail, Matches template.toList parts tail) ∧
    (∀ parts tail, Matches template.toList parts tail → template.toList = weave parts tail ∧
      ∀ args : List String, (fill template args).toList =
        (List.zipWith (fun part arg => part.1 ++ arg.toList) parts args).flatten ++
          weave (parts.drop args.length) tail) ∧
    (SlotsOnly template.toList → ∀ xs : List String, (∀ x ∈ xs, '{' ∉ x.toList) →
      (∀ ys, fill (fill template xs) ys = fill template (xs ++ ys)) ∧
      ∀ url : String, FilledInTurn template.toList (xs.map String.toList) url.toList ↔ url = fill template xs) := by
  refine ⟨exists_matches _, fun parts tail h => ⟨h.eq_weave, fun args => ?_⟩, fun hs xs hx => ?_⟩
  · rw [fill, String.toList_ofList, h.fillPieces, List.zipWith_map_right, List.length_map]
  · have hx : ∀ x ∈ xs.map String.toList, '{' ∉ x := by simpa using hx
    refine ⟨fun ys => ?_, fun url => ?_⟩
    · rw [fill, fill, fill, String.toList_ofList, fillPieces_append hs hx, List.map_append]
    · rw [filledInTurn_iff hs hx, fill, ← String.toList_inj, String.toList_ofList]

/-- A brace that closes in an argument, an empty argument, and a last one that looks like a slot. -/
theorem fill_by_position_portions :
    SlotsOnly "/{a}{b}/x{c}".toList ∧ (∀ x ∈ ["1\x7d", ""], '{' ∉ x.toList) ∧
    fill (fill "/{a}{b}/x{c}" ["1\x7d", ""]) ["{y}"] = "/1\x7d/x{y}" := by
  have hw : Woven [("/".toList, "a".toList), ([], "b".toList), ("/x".toList, "c".toList)] [] := by
    refine ⟨?_, ?_, braceFree_of_all (by decide)⟩
    · simp only [List.forall_mem_cons, List.not_mem_nil, false_imp_iff, implies_true, and_true]
      exact ⟨braceFree_of_all (by decide), braceFree_of_all (by decide), braceFree_of_all (by decide)⟩
    · simp only [List.forall_mem_cons, List.not_mem_nil, false_imp_iff, implies_true, and_true]
      exact ⟨⟨by decide, List.all_eq_true.1 (by decide)⟩, ⟨by decide, List.all_eq_true.1 (by decide)⟩,
        by decide, List.all_eq_true.1 (by decide)⟩
  have hs : SlotsOnly "/{a}{b}/x{c}".toList := hw.slotsOnly
  have hx : ∀ x ∈ ["1\x7d", ""], '{' ∉ x.toList := by decide
  obtain ⟨-, -, hall⟩ := fill_by_position "/{a}{b}/x{c}"
  obtain ⟨hcompose, -⟩ := hall hs ["1\x7d", ""] hx
  refine ⟨hs, hx, ?_⟩
  rw [hcompose]
  decide +kernel

end ResourceClient.Template
