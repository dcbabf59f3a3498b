/-
Pieces of markup. What a step reads is a piece by itself: followed by anything else it is read in the same way,
and what follows is left. So a text that has been read up to some place without a fault is read as the same
events whatever is put there.
-/
import ResourceClient.Proofs.Markup.TagForms
import ResourceClient.Proofs.Text.Case
import ResourceClient.Proofs.Text.Search

namespace ResourceClient.Markup

open Text

/-- Whether what stands before `rest` is a piece: with anything else behind it, `f` reads it with the outcome that
`out` has for what is left. -/
def IsPiece {β : Type} (f out : List Char → β) (cs rest : List Char) : Prop :=
  ∃ piece, cs = piece ++ rest ∧ ∀ other, f (piece ++ other) = out other

/-- A piece of one reader is a piece of another, which reads some characters before it. -/
theorem IsPiece.behind {β γ : Type} {f out : List Char → β} {g out' : List Char → γ} {cs rest : List Char}
    (h : IsPiece f out cs rest) (front : List Char) (hg : ∀ xs more, f xs = out more → g (front ++ xs) = out' more) :
    IsPiece g out' (front ++ cs) rest := by
  obtain ⟨piece, rfl, hp⟩ := h
  refine ⟨front ++ piece, (List.append_assoc ..).symm, fun other => ?_⟩
  rw [List.append_assoc]
  exact hg _ _ (hp other)

/-! ## Ends -/

theorem isPiece_after? {word cs rest : List Char} (h : after? word cs = some rest) :
    IsPiece (after? word) some cs rest := by
  obtain ⟨piece, hcs, -, hp⟩ := after?_piece h
  exact ⟨piece, hcs, hp⟩

section

variable {cs content rest : List Char}

theorem cutTag_eq {quote : Option Char} (h : cutTag quote cs = some (content, rest)) :
    cs = content ++ '>' :: rest ∧ ∀ other, cutTag quote (content ++ '>' :: other) = some (content, other) := by
  fun_induction cutTag quote cs generalizing content with
  | case1 => cases h
  | case2 c cs q ih =>
    obtain ⟨⟨_, _⟩, h1, h2⟩ := Option.map_eq_some_iff.1 h
    cases h2
    obtain ⟨rfl, hp⟩ := ih h1
    refine ⟨rfl, fun other => ?_⟩
    rw [List.cons_append, cutTag, hp]
    rfl
  | case3 =>
    cases h
    exact ⟨rfl, fun other => by rw [List.nil_append, cutTag, if_pos rfl]⟩
  | case4 c cs hc ih =>
    obtain ⟨⟨_, _⟩, h1, h2⟩ := Option.map_eq_some_iff.1 h
    cases h2
    obtain ⟨rfl, hp⟩ := ih h1
    refine ⟨rfl, fun other => ?_⟩
    rw [List.cons_append, cutTag, if_neg hc, hp]
    rfl

theorem cutBalanced_eq {depth : Nat} (h : cutBalanced depth cs = some (content, rest)) :
    cs = content ++ '>' :: rest ∧
      ∀ other, cutBalanced depth (content ++ '>' :: other) = some (content, other) := by
  fun_induction cutBalanced depth cs generalizing content with
  | case1 => cases h
  | case2 depth c cs hc =>
    cases h
    obtain ⟨rfl, rfl⟩ := hc
    exact ⟨rfl, fun other => by rw [List.nil_append, cutBalanced, if_pos ⟨rfl, rfl⟩]⟩
  | case3 depth c cs hc ih =>
    obtain ⟨⟨_, _⟩, h1, h2⟩ := Option.map_eq_some_iff.1 h
    cases h2
    obtain ⟨rfl, hp⟩ := ih h1
    refine ⟨rfl, fun other => ?_⟩
    rw [List.cons_append, cutBalanced, if_neg hc, hp]
    rfl

end

theorem exists_of_dropWhile {p : Char → Bool} {c : Char} {cs more : List Char} (h : cs.dropWhile p = c :: more) :
    ∃ front, cs = front ++ c :: more ∧ ∀ d ∈ front, p d = true :=
  ⟨cs.takeWhile p, by rw [← h, List.takeWhile_append_dropWhile], fun _ => List.mem_takeWhile_imp⟩

/-! ## Steps -/

section

variable {cs rest : List Char}

theorem isPiece_readReference (h : readReference cs = .skip rest) : IsPiece readReference .skip cs rest := by
  unfold readReference at h
  split at h
  · rename_i more hdrop
    cases h
    obtain ⟨name, rfl, hname⟩ := exists_of_dropWhile hdrop
    refine ⟨name ++ [';'], by simp, fun other => ?_⟩
    rw [readReference, List.append_assoc, List.singleton_append, dropWhile_append_cons_of_all hname (by decide)]
    rfl
  · cases h

theorem isPiece_readComment (h : readComment cs = .skip rest) : IsPiece readComment .skip cs rest := by
  unfold readComment at h
  split at h
  · split at h
    · rename_i hafter
      cases h
      refine (isPiece_after? hafter).behind ['-'] fun xs more hx => ?_
      rw [List.singleton_append, readComment, hx]
    · cases h
  · cases h

theorem isPiece_readCharacterData (h : readCharacterData cs = .skip rest) :
    IsPiece readCharacterData .skip cs rest := by
  unfold readCharacterData at h
  split at h
  · rename_i hafter
    cases h
    obtain ⟨body, hstrip, hafter⟩ := Option.bind_eq_some_iff.1 hafter
    rw [strip?_eq_some.1 hstrip]
    refine (isPiece_after? hafter).behind _ fun xs more hx => ?_
    rw [readCharacterData, strip?_append, Option.bind_some, hx]
  · cases h

theorem eq_of_toLower_eq_d {c : Char} (h : c.toLower = 'd') : c = 'D' ∨ c = 'd' := by
  have hlow : c.toLower.isLower = true := by rw [h]; decide
  refine of_ascii (p := fun d => d.toLower = 'd' → d = 'D' ∨ d = 'd') ?_ (toNat_of_isLower_toLower hlow) h
  decide

theorem exists_of_strip?_doctype {content name : List Char}
    (h : strip? "doctype".toList (foldChars content) = some name) :
    ∃ c tail, content = c :: tail ∧ (c = 'D' ∨ c = 'd') := by
  have hfold := strip?_eq_some.1 h
  cases content with
  | nil => cases hfold
  | cons c tail => exact ⟨c, tail, rfl, eq_of_toLower_eq_d (List.cons.inj hfold).1⟩

/-- A document type declaration is told by its first letter, whatever follows it. -/
theorem isPiece_readDoctype (h : readDoctype cs = .skip rest) : IsPiece readMarkup .skip ('!' :: cs) rest := by
  unfold readDoctype at h
  split at h
  · cases h
  · rename_i content more hcut
    split at h
    · cases h
    · rename_i name hname
      split at h
      · cases h
      · rename_i hblank
        cases h
        obtain ⟨rfl, hp⟩ := cutBalanced_eq hcut
        obtain ⟨c, tail, rfl, hc⟩ := exists_of_strip?_doctype hname
        refine ⟨'!' :: (c :: tail ++ ['>']), by simp, fun other => ?_⟩
        have hassoc : '!' :: (c :: tail ++ ['>']) ++ other = '!' :: c :: (tail ++ '>' :: other) := by simp
        have hread : readDoctype (c :: (tail ++ '>' :: other)) = .skip other := by
          have hcut := hp other
          rw [List.cons_append] at hcut
          simp only [readDoctype, hcut, hname, hblank]
          rfl
        rw [hassoc, readMarkup, if_pos, hread]
        · simpa using hc
        all_goals
          intro xs he
          obtain ⟨rfl, -⟩ := List.cons.inj he
          rcases hc with hc | hc <;> cases hc

theorem isPiece_readInstruction (h : readInstruction cs = .skip rest) : IsPiece readInstruction .skip cs rest := by
  unfold readInstruction at h
  split at h
  · cases h
  · rename_i hopen
    split at h
    · rename_i hafter
      cases h
      obtain ⟨piece, rfl, hle, hp⟩ := after?_piece hafter
      refine ⟨piece, rfl, fun other => ?_⟩
      cases piece with
      | nil => cases hle
      | cons c piece =>
        rw [List.cons_append, readInstruction, ← List.cons_append, hp]
        intro more he
        obtain ⟨rfl, -⟩ := List.cons.inj he
        exact hopen _ rfl
    · cases h

theorem readTag_ne_skip : readTag cs ≠ .skip rest := by
  unfold readTag
  split <;> simp

/-- What is passed over is a piece. -/
theorem isPiece_skip (h : step cs = .skip rest) : IsPiece step .skip cs rest := by
  unfold step at h
  split at h
  · cases h
  · unfold readMarkup at h
    split at h
    · exact (isPiece_readComment h).behind ['<', '!', '-'] fun xs more hx => by simp [step, readMarkup, hx]
    · exact (isPiece_readCharacterData h).behind ['<', '!', '['] fun xs more hx => by simp [step, readMarkup, hx]
    · split at h
      · exact (isPiece_readDoctype h).behind ['<'] fun xs more hx => by simp [step, hx]
      · cases h
    · exact (isPiece_readInstruction h).behind ['<', '?'] fun xs more hx => by simp [step, readMarkup, hx]
    · exact absurd h readTag_ne_skip
  · exact (isPiece_readReference h).behind ['&'] fun xs more hx => by simp [step, hx]
  · rename_i c cs h1 h2
    cases h
    refine ⟨[c], rfl, fun other => ?_⟩
    rw [List.singleton_append, step]
    · exact h1
    · exact h2

/-- A tag stands behind a bracket that no sign of other markup follows. -/
theorem exists_of_step_tag {tag : Tag} (h : step cs = .tag tag rest) :
    ∃ c more content, cs = '<' :: c :: more ∧ (c ≠ '!' ∧ c ≠ '?') ∧
      cutTag none (c :: more) = some (content, rest) ∧ tag = .ofContent content := by
  unfold step at h
  split at h
  · cases h
  · rename_i cs
    unfold readMarkup at h
    split at h
    · unfold readComment at h
      split at h
      · split at h <;> cases h
      · cases h
    · unfold readCharacterData at h
      split at h <;> cases h
    · split at h
      · unfold readDoctype at h
        repeat' split at h
        all_goals cases h
      · cases h
    · unfold readInstruction at h
      repeat' split at h
      all_goals cases h
    · rename_i hmark hquestion
      unfold readTag at h
      split at h
      · rename_i content more hcut
        cases h
        cases cs with
        | nil => cases hcut
        | cons c cs =>
          refine ⟨c, cs, content, rfl, ⟨?_, ?_⟩, hcut, rfl⟩
          · rintro rfl
            exact hmark _ rfl
          · rintro rfl
            exact hquestion _ rfl
      · cases h
  · unfold readReference at h
    split at h <;> cases h
  · cases h

/-- A tag is a piece. -/
theorem isPiece_tag {tag : Tag} (h : step cs = .tag tag rest) : IsPiece step (.tag tag) cs rest := by
  obtain ⟨c, more, content, rfl, hc, hcut, rfl⟩ := exists_of_step_tag h
  obtain ⟨heq, hp⟩ := cutTag_eq hcut
  refine ⟨'<' :: (content ++ ['>']), by rw [heq]; simp, fun other => ?_⟩
  -- the content, or the bracket that ends it, begins with the same character
  have hhead : ∃ tail, content ++ '>' :: other = c :: tail := by
    cases content with
    | nil =>
      obtain ⟨rfl, -⟩ := List.cons.inj heq
      exact ⟨other, rfl⟩
    | cons d content =>
      obtain ⟨rfl, -⟩ := List.cons.inj heq
      exact ⟨content ++ '>' :: other, rfl⟩
  obtain ⟨tail, htail⟩ := hhead
  have hassoc : '<' :: (content ++ ['>']) ++ other = '<' :: c :: tail := by rw [← htail]; simp
  have hcut := hp other
  rw [htail] at hcut
  rw [hassoc, step_of_cutTag hc hcut]

end

end ResourceClient.Markup
