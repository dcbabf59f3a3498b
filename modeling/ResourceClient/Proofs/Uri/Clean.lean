/-
The clean form of a template: gaps without braces and slots in turn, one slot for each placeholder, wherever
it stands. What fills the slots finds exactly these.
-/
import ResourceClient.Proofs.Uri.Slots

namespace ResourceClient.Template

open Text

/-! ## Gaps and slots -/

/-- The text of gaps that each have a slot behind them, and of a tail. -/
def weave (parts : List (List Char × List Char)) (tail : List Char) : List Char :=
  parts.flatMap (fun part => part.1 ++ '{' :: part.2 ++ ['}']) ++ tail

theorem weave_nil (tail : List Char) : weave [] tail = tail :=
  rfl

theorem weave_cons (gap name tail : List Char) (parts : List (List Char × List Char)) :
    weave ((gap, name) :: parts) tail = gap ++ '{' :: (name ++ '}' :: weave parts tail) := by
  simp [weave]

theorem weave_concat (parts : List (List Char × List Char)) (gap name tail : List Char) :
    weave (parts ++ [(gap, name)]) tail = weave parts gap ++ '{' :: (name ++ '}' :: tail) := by
  simp [weave]

/-- Gaps and a tail without braces, and names that slots can have. -/
structure Woven (parts : List (List Char × List Char)) (tail : List Char) : Prop where
  gaps : ∀ part ∈ parts, BraceFree part.1
  names : ∀ part ∈ parts, IsName part.2
  tail : BraceFree tail

theorem Woven.of_cons {gap name tail : List Char} {parts : List (List Char × List Char)}
    (h : Woven ((gap, name) :: parts) tail) : BraceFree gap ∧ IsName name ∧ Woven parts tail :=
  ⟨h.gaps _ List.mem_cons_self, h.names _ List.mem_cons_self,
    fun p hp => h.gaps p (List.mem_cons_of_mem _ hp), fun p hp => h.names p (List.mem_cons_of_mem _ hp), h.tail⟩

/-! ## Control characters and blank ends -/

theorem Blank.sublist {cs ds : List Char} (h : Blank cs) (hs : ds.Sublist cs) : Blank ds :=
  fun c hc => h c (hs.subset hc)

theorem BraceFree.sublist {cs ds : List Char} (h : BraceFree cs) (hs : ds.Sublist cs) : BraceFree ds :=
  fun c hc => h c (hs.subset hc)

section

variable {keep : Char → Bool}

/-- Dropping characters that neither mark a placeholder nor occur in its name keeps the placeholder. -/
theorem Placeholder.filter (hmark : ∀ c, isMark c = true → keep c = true)
    (hname : ∀ c, isSlotChar c = true → keep c = true) {name p : List Char} (h : Placeholder name p) :
    Placeholder name (p.filter keep) := by
  have ho : keep '{' = true := hmark '{' (by decide)
  have hc : keep '}' = true := hmark '}' (by decide)
  have hcolon : keep ':' = true := hmark ':' (by decide)
  have hself : ∀ {n}, IsName n → n.filter keep = n := fun hn =>
    List.filter_eq_self.2 fun c hm => hname c (hn.2 c hm)
  cases h with
  | plain h =>
    rw [List.filter_append, List.filter_cons_of_pos ho, hself h, List.filter_cons_of_pos hc]
    exact .plain h
  | constrained h hb ha hf =>
    simp only [List.filter_append, List.filter_cons_of_pos ho, List.filter_cons_of_pos hc,
      List.filter_cons_of_pos hcolon, hself h, List.cons_append]
    exact .constrained h (Blank.sublist hb List.filter_sublist) (Blank.sublist ha List.filter_sublist)
      (hf.sublist List.filter_sublist)

theorem Placed.filter (hmark : ∀ c, isMark c = true → keep c = true)
    (hname : ∀ c, isSlotChar c = true → keep c = true) {cs : List Char} {names : List (List Char)}
    (h : Placed cs names) : Placed (cs.filter keep) names := by
  induction h with
  | text h => exact .text (h.sublist List.filter_sublist)
  | slot h hp ht ih =>
    rw [List.filter_append, List.filter_append]
    exact .slot ih (hp.filter hmark hname) (ht.sublist List.filter_sublist)

end

theorem not_control_of_isMark {c : Char} (h : isMark c = true) : isControl c = false := by
  simp only [isMark, isBrace, Bool.or_eq_true, beq_iff_eq] at h
  rcases h with ((rfl | rfl) | rfl) | rfl <;> decide

theorem Placeholder.exists_cons {name p : List Char} (h : Placeholder name p) :
    ∃ inner, p = '{' :: inner ++ ['}'] := by
  cases h with
  | plain h => exact ⟨name, rfl⟩
  | constrained h hb ha hc =>
    rename_i before after constraint
    exact ⟨before ++ name ++ after ++ ':' :: constraint, by simp⟩

theorem Placed.dropWhile {cs : List Char} {names : List (List Char)} (h : Placed cs names) :
    Placed (cs.dropWhile isBlank) names := by
  induction h with
  | text h => exact .text (h.sublist (List.dropWhile_sublist _))
  | slot h hp ht ih =>
    obtain ⟨inner, rfl⟩ := hp.exists_cons
    rw [List.cons_append, List.cons_append, dropWhile_append_cons (by decide)]
    exact .slot ih hp ht

theorem Placed.dropEndWhile {cs : List Char} {names : List (List Char)} (h : Placed cs names) :
    Placed (dropEndWhile isBlank cs) names := by
  cases h with
  | text h => exact .text (h.sublist dropEndWhile_sublist)
  | @slot pre p t name names h hp ht =>
    obtain ⟨inner, rfl⟩ := hp.exists_cons
    -- the closing brace is not blank, so only the text behind it is trimmed
    have hassoc : pre ++ ('{' :: inner ++ ['}'] ++ t) = (pre ++ '{' :: inner) ++ '}' :: t := by simp
    rw [hassoc, dropEndWhile_append_cons (by decide)]
    have hback : (pre ++ '{' :: inner) ++ '}' :: Text.dropEndWhile isBlank t =
        pre ++ ('{' :: inner ++ ['}'] ++ Text.dropEndWhile isBlank t) := by simp
    rw [hback]
    exact .slot h hp (ht.sublist dropEndWhile_sublist)

/-! ## Constraints -/

theorem dropConstraints_cons_of_ne {c : Char} {cs : List Char} (h : c ≠ '{') :
    dropConstraints (c :: cs) = c :: dropConstraints cs := by
  rw [dropConstraints, if_neg h]

theorem dropConstraints_append {t : List Char} (h : BraceFree t) (cs : List Char) :
    dropConstraints (t ++ cs) = t ++ dropConstraints cs := by
  induction t with
  | nil => rfl
  | cons c t ih =>
    have hc : c ≠ '{' := by
      rintro rfl
      exact absurd (h _ List.mem_cons_self) (by decide)
    rw [List.cons_append, dropConstraints_cons_of_ne hc, ih fun d hd => h d (List.mem_cons_of_mem _ hd),
      List.cons_append]

theorem IsName.braceFree {name : List Char} (h : IsName name) : BraceFree name := by
  intro c hc
  have hm := h.not_mark c hc
  simp only [isMark, Bool.or_eq_false_iff] at hm
  exact hm.1.1

/-- A placeholder becomes a slot. -/
theorem Placeholder.dropConstraints {name p : List Char} (h : Placeholder name p) (cs : List Char) :
    dropConstraints (p ++ cs) = '{' :: (name ++ '}' :: Template.dropConstraints cs) := by
  cases h with
  | plain h =>
    have hmarks : ∀ c ∈ name, (c != ':' && !isBrace c) = true := fun c hc =>
      not_colon_brace_of_not_mark (h.not_mark c hc)
    -- the brace comes before any colon: there is no constraint to drop
    have hnone : constrained? (name ++ '}' :: cs) = none := by
      unfold constrained?
      rw [dropWhile_append_cons_of_all hmarks (by decide)]
      rfl
    have hassoc : '{' :: name ++ ['}'] ++ cs = '{' :: (name ++ '}' :: cs) := by simp
    rw [hassoc, Template.dropConstraints, if_pos rfl]
    split
    · rename_i hsome
      rw [hnone] at hsome
      cases hsome
    · rw [dropConstraints_append h.braceFree, dropConstraints_cons_of_ne (by decide)]
  | constrained h hb ha hc =>
    rename_i before after constraint
    have hmarks : ∀ c ∈ before ++ name ++ after, (c != ':' && !isBrace c) = true := fun c hmem =>
      not_colon_brace_of_not_mark (h.not_mark_between hb ha c hmem)
    have hsome : constrained? ((before ++ name ++ after) ++ ':' :: (constraint ++ '}' :: cs)) = some (name, cs) := by
      unfold constrained?
      rw [dropWhile_append_cons_of_all hmarks (by decide)]
      simp only
      rw [dropWhile_append_cons_of_all (fun c hmem => by simp [hc c hmem]) (by decide)]
      simp only
      rw [takeWhile_append_cons hmarks (by decide), h.trim_between hb ha]
    have hassoc : '{' :: (before ++ name ++ after) ++ ':' :: constraint ++ ['}'] ++ cs =
        '{' :: ((before ++ name ++ after) ++ ':' :: (constraint ++ '}' :: cs)) := by simp
    rw [hassoc, Template.dropConstraints, if_pos rfl]
    split
    · rename_i name' rest hsome'
      rw [hsome] at hsome'
      cases hsome'
      simp
    · rename_i hnone
      rw [hsome] at hnone
      cases hnone

/-- Without constraints, a template is gaps and slots in turn. -/
theorem Placed.dropConstraints {cs : List Char} {names : List (List Char)} (h : Placed cs names) :
    ∃ parts tail, Woven parts tail ∧ parts.map (·.2) = names ∧
      ∀ more, Template.dropConstraints (cs ++ more) = weave parts tail ++ Template.dropConstraints more := by
  -- the text after the last placeholder is the tail so far, and the gap of the next one
  induction h with
  | @text t h =>
    refine ⟨[], t, ⟨by simp, by simp, h⟩, rfl, fun more => ?_⟩
    rw [dropConstraints_append h, weave_nil]
  | @slot pre p t name names h hp ht ih =>
    obtain ⟨parts, gap, hw, rfl, ih⟩ := ih
    have hn : IsName name := hp.isName
    refine ⟨parts ++ [(gap, name)], t, ⟨?_, ?_, ht⟩, by simp, fun more => ?_⟩
    · intro part hpart
      rcases List.mem_append.1 hpart with hpart | hpart
      · exact hw.gaps part hpart
      · rw [List.mem_singleton.1 hpart]
        exact hw.tail
    · intro part hpart
      rcases List.mem_append.1 hpart with hpart | hpart
      · exact hw.names part hpart
      · rw [List.mem_singleton.1 hpart]
        exact hn
    · rw [List.append_assoc, List.append_assoc, ih, hp.dropConstraints, dropConstraints_append ht, weave_concat]
      simp

/-! ## Slashes -/

theorem collapseSlashes_cons_of_ne {c : Char} {cs : List Char} (h : c ≠ '/') :
    collapseSlashes (c :: cs) = c :: collapseSlashes cs := by
  rw [collapseSlashes]
  intro ds hc
  exact absurd hc h

/-- Slashes are collapsed on both sides of another character by themselves. -/
theorem collapseSlashes_append_cons {c : Char} (h : c ≠ '/') (a b : List Char) :
    collapseSlashes (a ++ c :: b) = collapseSlashes a ++ c :: collapseSlashes b := by
  -- the cases of the function: a doubled slash, any other start, and the end of the text
  fun_induction collapseSlashes a with
  | case1 cs ih => simpa [collapseSlashes] using ih
  | case2 d cs hd ih =>
    by_cases hs : d = '/'
    · subst hs
      cases cs with
      | nil =>
        rw [List.cons_append, List.nil_append, collapseSlashes, collapseSlashes_cons_of_ne h]
        · rfl
        · intro ds _ hds
          cases hds
          exact h rfl
      | cons e cs =>
        have he : e ≠ '/' := fun he => hd cs rfl (by rw [he])
        rw [List.cons_append, collapseSlashes]
        · rw [ih, List.cons_append]
        · intro ds _ hds
          cases hds
          exact he rfl
    · rw [List.cons_append, collapseSlashes_cons_of_ne hs, ih, List.cons_append]
  | case3 => rw [List.nil_append, collapseSlashes_cons_of_ne h]; rfl

theorem collapseSlashes_sublist (cs : List Char) : (collapseSlashes cs).Sublist cs := by
  fun_induction collapseSlashes cs with
  | case1 cs ih => exact ih.cons _
  | case2 c cs h ih => exact ih.cons_cons c
  | case3 => exact List.Sublist.slnil

theorem collapseSlashes_of_not_mem {cs : List Char} (h : '/' ∉ cs) : collapseSlashes cs = cs := by
  induction cs with
  | nil => rfl
  | cons c cs ih =>
    have hc : c ≠ '/' := fun e => h (e ▸ List.mem_cons_self)
    rw [collapseSlashes_cons_of_ne hc, ih fun hm => h (List.mem_cons_of_mem _ hm)]

/-- Collapsing slashes changes only the gaps and the tail. -/
theorem collapseSlashes_weave {parts : List (List Char × List Char)} {tail : List Char} (h : Woven parts tail) :
    collapseSlashes (weave parts tail) =
      weave (parts.map fun part => (collapseSlashes part.1, part.2)) (collapseSlashes tail) := by
  induction parts with
  | nil => rfl
  | cons part parts ih =>
    obtain ⟨gap, name⟩ := part
    obtain ⟨-, hn, h⟩ := h.of_cons
    rw [List.map_cons, weave_cons, weave_cons, collapseSlashes_append_cons (by decide),
      collapseSlashes_append_cons (by decide), collapseSlashes_of_not_mem hn.slash_not_mem, ih h]

/-- The clean form of a template is gaps and slots in turn, with a slot for each placeholder. -/
theorem exists_cleanChars {cs : List Char} {names : List (List Char)} (h : Placed cs names) :
    ∃ parts tail, Woven parts tail ∧ parts.map (·.2) = names ∧ cleanChars cs = weave parts tail := by
  have hf : Placed (cs.filter fun c => !isControl c) names :=
    h.filter (fun c hc => by simp [not_control_of_isMark hc]) fun c hc => by simp [not_control_of_isSlotChar hc]
  have ht : Placed (trim (cs.filter fun c => !isControl c)) names := hf.dropWhile.dropEndWhile
  obtain ⟨parts, tail, hw, hnames, hc⟩ := ht.dropConstraints
  have hc' := hc []
  simp only [List.append_nil, Template.dropConstraints] at hc'
  refine ⟨parts.map fun part => (collapseSlashes part.1, part.2), collapseSlashes tail, ⟨?_, ?_, ?_⟩, ?_, ?_⟩
  · intro part hpart
    obtain ⟨part, hmem, rfl⟩ := List.mem_map.1 hpart
    exact (hw.gaps part hmem).sublist (collapseSlashes_sublist _)
  · intro part hpart
    obtain ⟨part, hmem, rfl⟩ := List.mem_map.1 hpart
    exact hw.names part hmem
  · exact hw.tail.sublist (collapseSlashes_sublist _)
  · rw [List.map_map, ← hnames]
    rfl
  · unfold cleanChars
    rw [hc', collapseSlashes_weave hw]

/-! ## Matches -/

/-- Whether a match of the pattern of slots starts a text. -/
def StartsSlot (cs : List Char) : Prop :=
  ∃ name more, IsName name ∧ cs = '{' :: (name ++ '}' :: more)

/-- The leftmost matches of the pattern of slots in a text, none overlapping another: each with the gap before
it, in which no match starts, and the tail, in which none does. -/
inductive Matches : List Char → List (List Char × List Char) → List Char → Prop
  | nil {tail : List Char} (h : ∀ a b, tail = a ++ b → ¬StartsSlot b) : Matches tail [] tail
  | cons {gap name more tail : List Char} {parts : List (List Char × List Char)} (hn : IsName name)
      (hg : ∀ a b, gap = a ++ b → b ≠ [] → ¬StartsSlot (b ++ '{' :: (name ++ '}' :: more)))
      (h : Matches more parts tail) : Matches (gap ++ '{' :: (name ++ '}' :: more)) ((gap, name) :: parts) tail

theorem not_startsSlot_of_not_mem {cs more : List Char} (h : '{' ∉ cs) (hne : cs ≠ []) :
    ¬StartsSlot (cs ++ more) := by
  rintro ⟨name, rest, -, he⟩
  obtain ⟨c, cs, rfl⟩ := List.exists_cons_of_ne_nil hne
  obtain rfl := (List.cons.inj he).1
  exact h List.mem_cons_self

theorem BraceFree.not_startsSlot {cs more : List Char} (h : BraceFree cs) (hne : cs ≠ []) :
    ¬StartsSlot (cs ++ more) :=
  not_startsSlot_of_not_mem h.not_mem hne

/-- The slots are the leftmost matches. -/
theorem Woven.matches {parts : List (List Char × List Char)} {tail : List Char} (h : Woven parts tail) :
    Matches (weave parts tail) parts tail := by
  induction parts with
  | nil =>
    rw [weave_nil]
    refine .nil fun a b he => ?_
    cases b with
    | nil =>
      rintro ⟨name, more, -, hb⟩
      cases hb
    | cons c b =>
      have hb : BraceFree (c :: b) := h.tail.sublist (he ▸ List.sublist_append_right a (c :: b))
      have hs := @BraceFree.not_startsSlot (c :: b) [] hb (by simp)
      rwa [List.append_nil] at hs
  | cons part parts ih =>
    obtain ⟨gap, name⟩ := part
    obtain ⟨hg, hn, h⟩ := h.of_cons
    rw [weave_cons]
    refine .cons hn (fun a b he hne => ?_) (ih h)
    exact BraceFree.not_startsSlot (hg.sublist (he ▸ List.sublist_append_right a b)) hne

/-! ## Filling -/

theorem isName_of_slot? {cs name rest : List Char} (h : slot? cs = some (name, rest)) : IsName name := by
  unfold slot? at h
  split at h
  · split at h
    · cases h
    · rename_i hne
      cases h
      exact ⟨by simpa using hne, fun c hc => List.mem_takeWhile_imp hc⟩
  · cases h

theorem pieces_of_not_startsSlot {c : Char} {cs : List Char} (h : ¬StartsSlot (c :: cs)) :
    pieces (c :: cs) = .literal c :: pieces cs := by
  rw [pieces]
  split
  · rename_i hc
    split
    · rename_i name rest hs
      exact absurd ⟨name, rest, isName_of_slot? hs, by rw [hc, slot?_chars hs]⟩ h
    · rfl
  · rfl

/-- Where no match starts, a text is cut into its characters. -/
theorem pieces_gap {gap cs : List Char} (h : ∀ a b, gap = a ++ b → b ≠ [] → ¬StartsSlot (b ++ cs)) :
    pieces (gap ++ cs) = gap.map .literal ++ pieces cs := by
  induction gap with
  | nil => rfl
  | cons c gap ih =>
    have hc : ¬StartsSlot (c :: (gap ++ cs)) := h [] (c :: gap) rfl (by simp)
    rw [List.cons_append, pieces_of_not_startsSlot hc, ih fun a b he hb => h (c :: a) b (by rw [he]; rfl) hb]
    rfl

theorem pieces_append {gap : List Char} (h : '{' ∉ gap) (cs : List Char) :
    pieces (gap ++ cs) = gap.map .literal ++ pieces cs :=
  pieces_gap fun a b he hb => not_startsSlot_of_not_mem (fun hm => h (by simp [he, hm])) hb

theorem slot?_append {name : List Char} (h : IsName name) (cs : List Char) :
    slot? (name ++ '}' :: cs) = some (name, cs) := by
  unfold slot?
  rw [dropWhile_append_cons_of_all h.2 (by decide)]
  simp only
  rw [takeWhile_append_cons h.2 (by decide), if_neg (by simpa using h.1)]

theorem pieces_slot {name : List Char} (h : IsName name) (cs : List Char) :
    pieces ('{' :: (name ++ '}' :: cs)) = .slot name :: pieces cs := by
  have hs := slot?_append h cs
  rw [pieces, if_pos rfl]
  split
  · rename_i name' rest hsome
    rw [hs] at hsome
    cases hsome
    rfl
  · rename_i hnone
    rw [hs] at hnone
    cases hnone

theorem fillPieces_literals (cs : List Char) (ps : List Piece) (args : List (List Char)) :
    fillPieces (cs.map .literal ++ ps) args = cs ++ fillPieces ps args := by
  induction cs with
  | nil => rfl
  | cons c cs ih => rw [List.map_cons, List.cons_append, fillPieces, ih, List.cons_append]

theorem fillPieces_tail {tail : List Char} (h : ∀ a b, tail = a ++ b → ¬StartsSlot b) (args : List (List Char)) :
    fillPieces (pieces tail) args = tail := by
  have hp : pieces (tail ++ []) = tail.map .literal ++ pieces [] :=
    pieces_gap fun a b he _ => by rw [List.append_nil]; exact h a b he
  rw [List.append_nil] at hp
  rw [hp, fillPieces_literals]
  cases args <;> simp [pieces, fillPieces]

/-- Filling puts the arguments behind the gaps, in the places of the matches. The matches beyond them stay,
with the gaps before them. -/
theorem Matches.fillPieces {cs tail : List Char} {parts : List (List Char × List Char)}
    (h : Matches cs parts tail) (args : List (List Char)) :
    Template.fillPieces (pieces cs) args =
      (List.zipWith (fun part arg => part.1 ++ arg) parts args).flatten ++ weave (parts.drop args.length) tail := by
  induction h generalizing args with
  | nil h => simp [fillPieces_tail h, weave_nil]
  | @cons gap name more tail parts hn hg h ih =>
    rw [pieces_gap hg, pieces_slot hn, fillPieces_literals]
    cases args with
    | nil =>
      have hslot : Template.fillPieces (.slot name :: pieces more) [] =
          (Piece.slot name).chars ++ Template.fillPieces (pieces more) [] := by simp [Template.fillPieces]
      rw [hslot, ih, List.zipWith_nil_right, List.zipWith_nil_right, List.length_nil, List.drop_zero,
        List.drop_zero, weave_cons, Piece.chars]
      simp
    | cons arg args =>
      rw [Template.fillPieces, ih]
      simp

theorem fillPieces_weave_drop {parts : List (List Char × List Char)} {tail : List Char} (h : Woven parts tail)
    (args : List (List Char)) :
    fillPieces (pieces (weave parts tail)) args =
      (List.zipWith (fun part arg => part.1 ++ arg) parts args).flatten ++ weave (parts.drop args.length) tail :=
  h.matches.fillPieces args

/-- With an argument for each slot no slot stays. -/
theorem fillPieces_weave {parts : List (List Char × List Char)} {tail : List Char} (h : Woven parts tail)
    {args : List (List Char)} (hlen : parts.length ≤ args.length) :
    fillPieces (pieces (weave parts tail)) args =
      (List.zipWith (fun part arg => part.1 ++ arg) parts args).flatten ++ tail := by
  rw [fillPieces_weave_drop h, List.drop_of_length_le hlen, weave_nil]

end ResourceClient.Template
