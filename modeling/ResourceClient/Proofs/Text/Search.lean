/-
Words in texts: a word that a text begins with, and the first occurrence of a word, which is the first whatever
follows it.
-/
import ResourceClient.Text.Search
import Mathlib.Data.List.Basic

namespace ResourceClient.Text

/-! ## At the start -/

theorem strip?_append (word rest : List Char) : strip? word (word ++ rest) = some rest :=
  strip?_eq_some.2 rfl

/-- A word is not read off a text that departs from it. -/
theorem strip?_append_eq_none {word text : List Char} (h : ¬word <+: text ∧ ¬text <+: word) (rest : List Char) :
    strip? word (text ++ rest) = none := by
  cases hs : strip? word (text ++ rest) with
  | none => rfl
  | some more =>
    have hword : word <+: text ++ rest := ⟨more, (strip?_eq_some.1 hs).symm⟩
    exact absurd (List.prefix_or_prefix_of_prefix hword (List.prefix_append text rest)) (not_or.2 h)

theorem strip?_append_of_le {word cs : List Char} (h : word.length ≤ cs.length) (rest : List Char) :
    strip? word (cs ++ rest) = (strip? word cs).map (· ++ rest) := by
  have hsame : word.isPrefixOf (cs ++ rest) = word.isPrefixOf cs := by
    rw [Bool.eq_iff_iff, List.isPrefixOf_iff_prefix, List.isPrefixOf_iff_prefix]
    exact ⟨fun hw => List.prefix_of_prefix_length_le hw (List.prefix_append ..) h, List.prefix_append_of_prefix⟩
  unfold strip?
  rw [hsame, List.drop_append_of_le_length h]
  split <;> rfl

/-! ## First occurrences -/

theorem after?_word_append (word rest : List Char) : after? word (word ++ rest) = some rest := by
  cases hcs : word ++ rest with
  | nil => rw [after?, ← hcs, strip?_append]
  | cons c cs => rw [after?, ← hcs, strip?_append, Option.some_or]

/-- The first occurrence of a word is the first whatever follows it. -/
theorem after?_piece {word cs rest : List Char} (h : after? word cs = some rest) :
    ∃ piece, cs = piece ++ rest ∧ word.length ≤ piece.length ∧ ∀ other, after? word (piece ++ other) = some other := by
  have hword : ∀ cs, strip? word cs = some rest → ∃ piece, cs = piece ++ rest ∧ word.length ≤ piece.length ∧
      ∀ other, after? word (piece ++ other) = some other :=
    fun cs hs => ⟨word, strip?_eq_some.1 hs, Nat.le_refl _, after?_word_append word⟩
  induction cs with
  | nil => exact hword _ h
  | cons c cs ih =>
    rcases Option.or_eq_some_iff.1 h with hs | ⟨hnone, h⟩
    · exact hword _ hs
    · obtain ⟨piece, rfl, hle, hp⟩ := ih h
      refine ⟨c :: piece, rfl, by rw [List.length_cons]; omega, fun other => ?_⟩
      -- the word does not begin at `c`, since it would end within the piece
      have hlong : word.length ≤ (c :: piece).length := by rw [List.length_cons]; omega
      have hstart : strip? word (c :: piece) = none := by
        rw [← List.cons_append, strip?_append_of_le hlong, Option.map_eq_none_iff] at hnone
        exact hnone
      rw [List.cons_append, after?, ← List.cons_append, strip?_append_of_le hlong, hstart, hp]
      rfl

theorem after?_append {word cs rest : List Char} (h : after? word cs = some rest) (more : List Char) :
    after? word (cs ++ more) = some (rest ++ more) := by
  obtain ⟨piece, rfl, -, hp⟩ := after?_piece h
  rw [List.append_assoc, hp]

/-! ## Words without borders -/

/-- A word none of whose proper ends is one of its beginnings, so that it does not overlap itself. -/
def Borderless (word : List Char) : Prop :=
  ∀ k < word.length, k ≠ 0 → ¬word.drop k <+: word

instance (word : List Char) : Decidable (Borderless word) :=
  inferInstanceAs (Decidable (∀ k < word.length, k ≠ 0 → ¬word.drop k <+: word))

/-- Such a word does not begin in a text in front of it that does not have it. -/
theorem Borderless.not_prefix {word text : List Char} (hb : Borderless word) (hne : text ≠ []) (h : ¬word <:+: text)
    (rest : List Char) : ¬word <+: text ++ (word ++ rest) := by
  intro hp
  rcases List.prefix_or_prefix_of_prefix hp (List.prefix_append text _) with hin | ⟨more, hword⟩
  · exact h hin.isInfix
  · -- the word would end in the one behind the text
    have hmore : more ≠ [] := by
      rintro rfl
      rw [List.append_nil] at hword
      exact h (hword ▸ List.infix_refl _)
    have hlen := congrArg List.length hword
    rw [List.length_append] at hlen
    have hpos := List.length_pos_iff.2 hne
    have hpos' := List.length_pos_iff.2 hmore
    refine hb text.length (by omega) (by omega) ?_
    have hdrop : word.drop text.length = more := by rw [← hword, List.drop_left]
    rw [hdrop]
    have hmore' : more <+: word ++ rest := by
      have hp' : text ++ more <+: text ++ (word ++ rest) := hword ▸ hp
      exact (List.prefix_append_right_inj text).1 hp'
    exact List.prefix_of_prefix_length_le hmore' (List.prefix_append word rest) (by omega)

/-- The first occurrence of a word is behind the text that does not have it. -/
theorem Borderless.after?_append {word text : List Char} (hb : Borderless word) (h : ¬word <:+: text)
    (rest : List Char) : after? word (text ++ (word ++ rest)) = some rest := by
  induction text with
  | nil => exact after?_word_append word rest
  | cons c text ih =>
    have hnone : strip? word (c :: text ++ (word ++ rest)) = none := by
      rw [strip?, if_neg fun hp => hb.not_prefix (by simp) h rest (List.isPrefixOf_iff_prefix.1 hp)]
    rw [List.cons_append, after?, ← List.cons_append, hnone, Option.none_or]
    exact ih fun hi => h (hi.trans (List.suffix_cons c text).isInfix)

/-- A text is told from what follows the first occurrence of a word behind it. -/
theorem Borderless.append_inj {word text text' rest rest' : List Char} (hb : Borderless word) (h : ¬word <:+: text)
    (h' : ¬word <:+: text') (he : text ++ (word ++ rest) = text' ++ (word ++ rest')) : text = text' ∧ rest = rest' := by
  have hrest : some rest = some rest' := by rw [← hb.after?_append h, he, hb.after?_append h']
  cases hrest
  exact ⟨List.append_cancel_right he, rfl⟩

/-- In front of the first occurrence of a word there is none. -/
theorem exists_of_after? {word cs rest : List Char} (hw : word ≠ []) (h : after? word cs = some rest) :
    ∃ text, cs = text ++ (word ++ rest) ∧ ¬word <:+: text := by
  have hstart : ∀ cs, strip? word cs = some rest → ∃ text, cs = text ++ (word ++ rest) ∧ ¬word <:+: text :=
    fun cs hs => ⟨[], by rw [strip?_eq_some.1 hs, List.nil_append], fun hi => hw (List.infix_nil.1 hi)⟩
  induction cs with
  | nil => exact hstart _ h
  | cons c cs ih =>
    rcases Option.or_eq_some_iff.1 h with hs | ⟨hnone, h⟩
    · exact hstart _ hs
    · obtain ⟨text, rfl, hfree⟩ := ih h
      refine ⟨c :: text, rfl, fun hi => ?_⟩
      rcases List.infix_cons_iff.1 hi with hp | hi
      · obtain ⟨more, hmore⟩ := hp
        rw [← List.cons_append, ← hmore, List.append_assoc, strip?_append] at hnone
        cases hnone
      · exact hfree hi

end ResourceClient.Text
