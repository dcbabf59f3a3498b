/-
Text between tags. Markup that is accepted stays so, with the same forest, when text is put directly before a
piece of markup or at the end, just when each ampersand in the text begins a reference. A text in which one does
not is refused at this ampersand, although nothing is made of text.
-/
import ResourceClient.Proofs.Markup.Nesting
import ResourceClient.Proofs.Markup.Pieces
import Mathlib

namespace ResourceClient.Markup

open Text

/-! ## Places -/

/-- Whether a text is left after some whole pieces of another. -/
inductive Reaches : List Char → List Char → Prop
  | refl (cs : List Char) : Reaches cs cs
  | skip {cs more rest : List Char} (hs : step cs = .skip more) (h : Reaches more rest) : Reaches cs rest
  | tag {cs more rest : List Char} {tag : Tag} (hs : step cs = .tag tag more) (h : Reaches more rest) :
      Reaches cs rest

/-- Whether a place in markup, given by what stands before and after it, is outside of all pieces of markup, and
directly before one or at the end. -/
structure IsBetween (before after : String) : Prop where
  reaches : Reaches (before ++ after).toList after.toList
  ends : after.toList = [] ∨ after.toList.head? = some '<'

/-- What stands before a place is read as some events, whatever is put there. -/
theorem Reaches.readsAs {cs rest : List Char} (h : Reaches cs rest) {size : Nat}
    (hf : (readEvents size cs).2 = none) : ∃ front es, cs = front ++ rest ∧ ReadsAs front es := by
  induction h with
  | refl => exact ⟨[], [], rfl, .nil⟩
  | skip hs _ ih =>
    rw [readEvents_of_skip hs] at hf
    obtain ⟨front, es, rfl, hr⟩ := ih hf
    obtain ⟨piece, rfl, hp⟩ := isPiece_skip hs
    exact ⟨piece ++ front, es, (List.append_assoc ..).symm, (ReadsAs.of_skip hp).append hr⟩
  | @tag cs more rest tag hs _ ih =>
    rcases he : Event.ofTag tag with fault | e
    · rw [readEvents_of_faulty_tag hs he] at hf
      cases hf
    · rw [readEvents_of_tag hs he] at hf
      obtain ⟨front, es, rfl, hr⟩ := ih hf
      obtain ⟨piece, rfl, hp⟩ := isPiece_tag hs
      exact ⟨piece ++ front, e :: es, (List.append_assoc ..).symm, (ReadsAs.of_tag hp he).append hr⟩

/-! ## Texts -/

/-- Whether what follows an ampersand makes it begin a reference: a semicolon comes before any other ampersand. -/
def ClosesReference (back : List Char) : Prop :=
  ∃ name more, back = name ++ ';' :: more ∧ '&' ∉ name

/-- Whether each ampersand of a text begins a reference. -/
def ClosesReferences (text : List Char) : Prop :=
  ∀ front back, text = front ++ '&' :: back → ClosesReference back

/-- Texts of characters and references. -/
inductive Passage : List Char → Prop
  | nil : Passage []
  | character {c : Char} {text : List Char} (hb : c ≠ '<') (ha : c ≠ '&') (h : Passage text) : Passage (c :: text)
  | reference {name text : List Char} (hn : ∀ d ∈ name, (d != ';' && d != '&' && d != '<') = true)
      (h : Passage text) : Passage ('&' :: (name ++ ';' :: text))

theorem Passage.readsAs {text : List Char} (h : Passage text) : ReadsAs text [] := by
  induction h with
  | nil => exact .nil
  | character hb ha _ ih => exact (ReadsAs.plain hb ha).append ih
  | @reference name text hn _ ih =>
    have hone : ReadsAs ('&' :: (name ++ [';'])) [] := by
      refine .of_skip fun rest => ?_
      have hassoc : '&' :: (name ++ [';']) ++ rest = '&' :: (name ++ ';' :: rest) := by simp
      rw [hassoc, step, readReference, dropWhile_append_cons_of_all hn (by decide)]
      rfl
    have hall := hone.append ih
    rwa [List.cons_append, List.append_assoc] at hall

theorem Passage.closesReferences {text : List Char} (h : Passage text) : ClosesReferences text := by
  induction h with
  | nil => intro front back he; simp at he
  | @character c text hb ha _ ih =>
    intro front back he
    cases front with
    | nil => exact absurd (List.cons.inj he).1 ha
    | cons d front => exact ih front back (List.cons.inj he).2
  | @reference name text hn _ ih =>
    have hname : '&' ∉ name := fun hm => absurd (hn _ hm) (by decide)
    intro front back he
    cases front with
    | nil => exact ⟨name, text, (List.cons.inj he).2.symm, hname⟩
    | cons d front =>
      -- another ampersand stands behind the semicolon
      rcases List.append_eq_append_iff.1 (List.cons.inj he).2 with ⟨as, -, ht⟩ | ⟨bs, rfl, ht⟩
      · cases as with
        | nil => cases ht
        | cons e as => exact ih as back (List.cons.inj ht).2
      · cases bs with
        | nil => cases ht
        | cons e bs =>
          obtain ⟨rfl, -⟩ := List.cons.inj ht
          exact absurd (List.mem_append_right _ List.mem_cons_self) hname

/-- A reference is closed at its first semicolon. -/
theorem ClosesReference.exists_name {back : List Char} (h : ClosesReference back) (hb : '<' ∉ back) :
    ∃ name more, back = name ++ ';' :: more ∧ ∀ d ∈ name, (d != ';' && d != '&' && d != '<') = true := by
  obtain ⟨name, more, rfl, hname⟩ := h
  obtain ⟨front, tail, heq, hfirst⟩ := List.eq_append_cons_of_mem (List.mem_append_right name (List.mem_singleton_self ';'))
  have hback : name ++ ';' :: more = front ++ ';' :: (tail ++ more) := by
    rw [← List.singleton_append, ← List.append_assoc, heq]
    simp
  refine ⟨front, tail ++ more, hback, fun d hd => ?_⟩
  simp only [Bool.and_eq_true, bne_iff_ne]
  refine ⟨⟨?_, ?_⟩, ?_⟩ <;> rintro rfl
  · exact hfirst hd
  · have hmem : '&' ∈ name ++ [';'] := heq ▸ List.mem_append_left _ hd
    simp [hname] at hmem
  · exact hb (hback ▸ List.mem_append_left _ hd)

/-- A text without brackets is made of characters and references, or a first ampersand of it begins none. -/
theorem passage_or_stray (text : List Char) (hb : '<' ∉ text) :
    Passage text ∨ ∃ front back, text = front ++ '&' :: back ∧ Passage front ∧ ¬ClosesReference back := by
  -- what follows a character or a reference is shorter
  induction hn : text.length using Nat.strong_induction_on generalizing text with
  | _ n ih =>
    cases text with
    | nil => exact .inl .nil
    | cons c text =>
      rw [List.length_cons] at hn
      by_cases hc : c = '&'
      · subst hc
        have htext : '<' ∉ text := fun hm => hb (List.mem_cons_of_mem _ hm)
        by_cases hclosed : ClosesReference text
        · obtain ⟨name, more, rfl, hname⟩ := hclosed.exists_name htext
          have hlength : more.length < n := by
            rw [List.length_append, List.length_cons] at hn
            omega
          rcases ih _ hlength more (fun hm => htext (by simp [hm])) rfl with hp | ⟨front, back, rfl, hp, hs⟩
          · exact .inl (.reference hname hp)
          · exact .inr ⟨'&' :: (name ++ ';' :: front), back, by simp, .reference hname hp, hs⟩
        · exact .inr ⟨[], text, rfl, .nil, hclosed⟩
      · have hbracket : c ≠ '<' := fun h => hb (h ▸ List.mem_cons_self)
        rcases ih _ (by omega) text (fun hm => hb (List.mem_cons_of_mem _ hm)) rfl with
          hp | ⟨front, back, rfl, hp, hs⟩
        · exact .inl (.character hbracket hc hp)
        · exact .inr ⟨c :: front, back, rfl, .character hbracket hc hp, hs⟩

/-- An ampersand that begins no reference is a fault, before a piece of markup and at the end. -/
theorem step_stray {back after : List Char} (hb : '<' ∉ back) (hs : ¬ClosesReference back)
    (ha : after = [] ∨ after.head? = some '<') :
    step ('&' :: (back ++ after)) = .fault .openReference ('&' :: (back ++ after)) := by
  rw [step, readReference]
  split
  · rename_i rest hdrop
    exfalso
    obtain ⟨name, heq, hname⟩ := exists_of_dropWhile hdrop
    rcases List.append_eq_append_iff.1 heq with ⟨as, rfl, hafter⟩ | ⟨bs, rfl, hafter⟩
    · -- the semicolon would stand behind the text, where nothing or a bracket does
      cases as with
      | nil => subst hafter; simp at ha
      | cons c as =>
        subst hafter
        obtain rfl : c = '<' := by simpa using ha
        exact absurd (hname '<' (by simp)) (by decide)
    · cases bs with
      | nil => rw [List.nil_append] at hafter; subst hafter; simp at ha
      | cons c bs =>
        obtain ⟨rfl, rfl⟩ := List.cons.inj hafter
        exact hs ⟨name, bs, rfl, fun hm => absurd (hname _ hm) (by decide)⟩
  · rfl

/-! ## Parsing -/

theorem byteSize_append (a b : List Char) : byteSize (a ++ b) = byteSize a + byteSize b := by
  induction a with
  | nil => exact (Nat.zero_add _).symm
  | cons c a ih => rw [List.cons_append, byteSize, ih, byteSize, Nat.add_assoc]

theorem dropMark_append_ampersand (a b : List Char) : dropMark (a ++ '&' :: b) = dropMark a ++ '&' :: b := by
  cases a with
  | nil => rfl
  | cons c a =>
    by_cases hc : c = '\ufeff'
    · subst hc
      rfl
    · rw [List.cons_append, dropMark, dropMark, List.cons_append]
      · exact fun cs he => hc (List.cons.inj he).1
      · exact fun cs he => hc (List.cons.inj he).1

/-- Markup that is accepted has no fault, and its events are taken. -/
theorem of_parse_ok {markup : String} {forest : Forest} (h : parse markup = .ok forest) :
    (events markup).2 = none ∧ ∃ g, feedAll {} (events markup).1 = .ok g := by
  unfold parse at h
  split at h
  · cases h
  · cases h
  · rename_i g hg hf
    exact ⟨hf, g, hg⟩

theorem parse_congr {markup other : String} (h : events markup = events other) : parse markup = parse other := by
  unfold parse
  rw [h]

section

variable {before text after : String}

/-- What stands before a place is read as some events, and what stands after it has no fault. -/
theorem IsBetween.readsAs (hb : IsBetween before after) (hf : (events (before ++ after)).2 = none) :
    ∃ es, ReadsAs before.toList es ∧ ∀ size, (readEvents size after.toList).2 = none := by
  rw [events_eq] at hf
  obtain ⟨front, es, hfront, hr⟩ := hb.reaches.readsAs hf
  rw [String.toList_append, List.append_cancel_right_eq] at hfront
  subst hfront
  rw [String.toList_append, hr] at hf
  exact ⟨es, hr, fun size => by rwa [readEvents_size hf]⟩

/-- A text of characters and references brings no events and no fault. -/
theorem IsBetween.events_insert (hb : IsBetween before after) (hf : (events (before ++ after)).2 = none)
    (ht : Passage text.toList) : events (before ++ text ++ after) = events (before ++ after) := by
  obtain ⟨es, hr, hafter⟩ := hb.readsAs hf
  rw [events_eq, events_eq, String.toList_append, String.toList_append, String.toList_append,
    hr.append ht.readsAs, hr, List.append_nil, readEvents_size (hafter _)]

/-- Before an ampersand that begins no reference all is read, and there the reading ends. -/
theorem IsBetween.events_stray {front back : List Char} (hb : IsBetween before after)
    (hf : (events (before ++ after)).2 = none) (ht : text.toList = front ++ '&' :: back) (hp : Passage front)
    (hback : '<' ∉ back) (hs : ¬ClosesReference back) :
    (events (before ++ text ++ after)).1 <+: (events (before ++ after)).1 ∧ (events (before ++ text ++ after)).2 =
      some (.read (byteSize (dropMark (before.toList ++ front))) .openReference) := by
  obtain ⟨es, hr, -⟩ := hb.readsAs hf
  have hall : (before ++ text ++ after).toList = (before.toList ++ front) ++ '&' :: (back ++ after.toList) := by
    simp [ht]
  have hsize : byteSize (dropMark (before ++ text ++ after).toList) =
      byteSize (dropMark (before.toList ++ front)) + byteSize ('&' :: (back ++ after.toList)) := by
    rw [hall, dropMark_append_ampersand, byteSize_append]
  have hread := hr.append hp.readsAs
  rw [List.append_nil] at hread
  rw [events_eq, events_eq, hsize, hall, hread, readEvents_of_fault (step_stray hback hs hb.ends),
    Nat.add_sub_cancel, String.toList_append, hr, List.append_nil]
  exact ⟨List.prefix_append .., rfl⟩

/-- Text that is put between the tags of markup that is accepted changes nothing just when each ampersand in it
begins a reference; otherwise the markup is refused at the first that does not. -/
theorem parse_text_between {forest : Forest} (h : parse (before ++ after) = .ok forest) (hb : IsBetween before after)
    (ht : '<' ∉ text.toList) :
    (parse (before ++ text ++ after) = .ok forest ↔ ClosesReferences text.toList) ∧
    (¬ClosesReferences text.toList → ∃ front back, text.toList = front ++ '&' :: back ∧
      ClosesReferences front ∧ ¬ClosesReference back ∧ parse (before ++ text ++ after) =
        .error (.read (byteSize (dropMark (before.toList ++ front))) .openReference)) := by
  obtain ⟨hf, g, hg⟩ := of_parse_ok h
  rcases passage_or_stray text.toList ht with hp | ⟨front, back, htext, hp, hs⟩
  · have hsame := parse_congr (hb.events_insert hf hp)
    rw [hsame]
    exact ⟨iff_of_true h hp.closesReferences, fun hopen => absurd hp.closesReferences hopen⟩
  · have hback : '<' ∉ back := fun hm => ht (by simp [htext, hm])
    have hopen : ¬ClosesReferences text.toList := fun hc => hs (hc front back htext)
    obtain ⟨⟨more, hmore⟩, hfault⟩ := hb.events_stray hf htext hp hback hs
    -- the tags before the ampersand fit, as they are the first of those that are accepted
    have hfed : ∃ g', feedAll {} (events (before ++ text ++ after)).1 = .ok g' := by
      rw [← hmore, feedAll_append] at hg
      rcases hfirst : feedAll {} (events (before ++ text ++ after)).1 with fault | g'
      · rw [hfirst] at hg
        cases hg
      · exact ⟨g', rfl⟩
    obtain ⟨g', hg'⟩ := hfed
    have herror : parse (before ++ text ++ after) =
        .error (.read (byteSize (dropMark (before.toList ++ front))) .openReference) := by
      unfold parse
      rw [hg', hfault]
    exact ⟨iff_of_false (by rw [herror]; simp) hopen, fun _ => ⟨front, back, htext, hp.closesReferences, hs, herror⟩⟩

end

/-- A reference between two tags is nothing. -/
theorem parse_text_between_reference :
    let forest : Forest := [⟨"a", {}, []⟩]
    parse ("<a>" ++ "</a>") = .ok forest ∧ IsBetween "<a>" "</a>" ∧ '<' ∉ "&amp;".toList ∧
      parse ("<a>" ++ "&amp;" ++ "</a>") = .ok forest := by
  intro forest
  have hparse : parse ("<a>" ++ "</a>") = .ok forest := by cbv
  have hstep : step ("<a>" ++ "</a>").toList = .tag (.opening ['a']) "</a>".toList := by decide
  have hbetween : IsBetween "<a>" "</a>" := ⟨.tag hstep (.refl _), .inr (by decide)⟩
  have htext : "&amp;".toList = '&' :: (['a', 'm', 'p'] ++ ';' :: []) := by decide
  have hcloses : ClosesReferences "&amp;".toList := by
    rw [htext]
    exact (Passage.reference (List.all_eq_true.1 (by decide)) .nil).closesReferences
  have hbracket : '<' ∉ "&amp;".toList := by decide
  exact ⟨hparse, hbetween, hbracket, (parse_text_between hparse hbetween hbracket).1.2 hcloses⟩

/-- An ampersand between two tags makes markup that is accepted without it be refused. -/
theorem parse_refuses_ampersand :
    parse ("<a>" ++ "</a>") = .ok [⟨"a", {}, []⟩] ∧ IsBetween "<a>" "</a>" ∧ '<' ∉ "&".toList ∧
      parse ("<a>" ++ "&" ++ "</a>") = .error (.read 3 .openReference) := by
  have hstep : step ("<a>" ++ "</a>").toList = .tag (.opening ['a']) "</a>".toList := by decide
  exact ⟨by cbv, ⟨.tag hstep (.refl _), .inr (by decide)⟩, by decide, by cbv⟩

end ResourceClient.Markup
