/-
The declaration lines of a source: of lines that are put together, those that mention a declaring element
are found again in their order, whatever other lines stand between them, and a line that opens no comment
is left as it is.
-/
import ResourceClient.Source.Declarations
import Mathlib.Data.List.Infix

namespace ResourceClient.Source

open Text

/-! ## Mentions -/

/-- A word is found in a text iff it stands somewhere in it. -/
theorem isSome_after?_iff {word cs : List Char} : (after? word cs).isSome = true ↔ word <:+: cs := by
  have hstrip : ∀ {ds : List Char}, (strip? word ds).isSome = true ↔ word <+: ds := by
    intro ds
    unfold strip?
    by_cases h : word.isPrefixOf ds = true
    · rw [if_pos h]
      exact ⟨fun _ => List.isPrefixOf_iff_prefix.1 h, fun _ => rfl⟩
    · rw [if_neg h]
      exact ⟨fun hn => absurd hn (by simp), fun hp => absurd (List.isPrefixOf_iff_prefix.2 hp) h⟩
  induction cs with
  | nil =>
    rw [after?, hstrip, List.prefix_nil, List.infix_nil]
  | cons c cs ih =>
    rw [after?, Option.isSome_or, Bool.or_eq_true, List.infix_cons_iff]
    exact or_congr hstrip ih

theorem isDeclaration_iff {line : List Char} :
    isDeclaration line = true ↔ ∃ word ∈ keywords, word.toList <:+: foldChars line := by
  unfold isDeclaration
  rw [List.any_eq_true]
  simp only [isSome_after?_iff]

/-- A line that mentions no declaring element, in any letter case. -/
structure IsOther (line : List Char) : Prop where
  single : '\n' ∉ line
  mentions : ∀ word ∈ keywords, ¬word.toList <:+: foldChars line

theorem not_isDeclaration {line : List Char} (h : ∀ word ∈ keywords, ¬word.toList <:+: foldChars line) :
    isDeclaration line = false := by
  rw [Bool.eq_false_iff]
  intro hd
  obtain ⟨word, hw, hi⟩ := isDeclaration_iff.1 hd
  exact h word hw hi

/-- What is left of such a line at its start is another one. -/
theorem IsOther.isDeclaration_prefix {line start : List Char} (h : IsOther line) (hp : start <+: line) :
    isDeclaration start = false := by
  refine not_isDeclaration fun word hw hi => h.mentions word hw (hi.trans ?_)
  exact (hp.map Char.toLower).isInfix

/-! ## Lines -/

/-- A character that ends no line stands at the start of the line behind it. -/
theorem lines_cons {c : Char} {cs : List Char} (hc : c ≠ '\n') (hr : c = '\r' → cs.head? ≠ some '\n') :
    lines (c :: cs) = match lines cs with
      | [] => [[c]]
      | line :: more => (c :: line) :: more := by
  rw [lines.eq_def]
  split
  · rename_i h
    cases h
  · rename_i h
    exact absurd (List.cons.inj h).1 hc
  · rename_i h
    obtain ⟨rfl, rfl⟩ := List.cons.inj h
    exact absurd rfl (hr rfl)
  · rename_i h
    obtain ⟨rfl, rfl⟩ := List.cons.inj h
    rfl

/-- A line feed ends the line before it, which only a carriage return at its end changes. -/
theorem exists_lines_append {line : List Char} (h : '\n' ∉ line) (rest : List Char) :
    ∃ start, start <+: line ∧ (line.getLast? ≠ some '\r' → start = line) ∧
      lines (line ++ '\n' :: rest) = start :: lines rest := by
  induction line with
  | nil => exact ⟨[], List.prefix_refl _, fun _ => rfl, by rw [List.nil_append, lines]⟩
  | cons c line ih =>
    have hc : c ≠ '\n' := fun e => h (e ▸ List.mem_cons_self)
    have hline : '\n' ∉ line := fun hm => h (List.mem_cons_of_mem _ hm)
    obtain ⟨start, hp, hs, hl⟩ := ih hline
    cases line with
    | nil =>
      obtain rfl := List.prefix_nil.1 hp
      by_cases hr : c = '\r'
      · -- the one place where the line feed takes a character along
        subst hr
        exact ⟨[], List.nil_prefix, fun hne => absurd rfl hne, by simp [lines]⟩
      · refine ⟨[c], List.prefix_refl _, fun _ => rfl, ?_⟩
        rw [List.cons_append, lines_cons hc fun e => absurd e hr, hl]
    | cons d line =>
      refine ⟨c :: start, List.cons_prefix_cons.2 ⟨rfl, hp⟩, fun hne => ?_, ?_⟩
      · rw [hs (by simpa using hne)]
      · have hd : d ≠ '\n' := fun e => hline (e ▸ List.mem_cons_self)
        rw [List.cons_append, lines_cons hc fun _ => by simpa using hd, hl]

/-- Text without a line feed is one line. -/
theorem lines_eq_singleton {line : List Char} (h : '\n' ∉ line) (hne : line ≠ []) : lines line = [line] := by
  induction line with
  | nil => exact absurd rfl hne
  | cons c line ih =>
    have hc : c ≠ '\n' := fun e => h (e ▸ List.mem_cons_self)
    have hline : '\n' ∉ line := fun hm => h (List.mem_cons_of_mem _ hm)
    have hhead : line.head? ≠ some '\n' := fun e => hline (List.mem_of_mem_head? e)
    rw [lines_cons hc fun _ => hhead]
    cases line with
    | nil => rfl
    | cons d line => rw [ih hline (by simp)]

/-! ## Line starts -/

section

variable {a cs : List Char} {c : Char}

/-- Whether a line starts behind a text. -/
def IsLineStart (cs : List Char) : Prop :=
  cs = [] ∨ cs.getLast? = some '\n'

theorem IsLineStart.tail (h : IsLineStart (c :: cs)) : IsLineStart cs := by
  rcases h with h | h
  · cases h
  · cases cs with
    | nil => exact .inl rfl
    | cons d cs => exact .inr (by rwa [List.getLast?_cons_cons] at h)

theorem IsLineStart.ne_nil (h : IsLineStart (c :: cs)) (hc : c ≠ '\n') : cs ≠ [] := by
  rintro rfl
  rcases h with h | h
  · cases h
  · exact hc (Option.some.inj h)

theorem lines_ne_nil (h : cs ≠ []) : lines cs ≠ [] := by
  fun_cases lines cs with
  | case1 => exact absurd rfl h
  | case2 => nofun
  | case3 => nofun
  | case4 => nofun
  | case5 => nofun

/-- The lines of a text behind a line start follow those before it. -/
theorem lines_append (h : IsLineStart a) (b : List Char) : lines (a ++ b) = lines a ++ lines b := by
  fun_induction lines a with
  | case1 => rfl
  | case2 cs ih =>
    show lines ('\n' :: (cs ++ b)) = _
    rw [lines, ih h.tail]
    rfl
  | case3 cs ih =>
    show lines ('\r' :: '\n' :: (cs ++ b)) = _
    rw [lines, ih h.tail.tail]
    rfl
  | case4 c cs hc hr hnil ih => exact absurd hnil (lines_ne_nil (h.ne_nil hc))
  | case5 c cs hc hr line more hlines ih =>
    have hhead : c = '\r' → (cs ++ b).head? ≠ some '\n' := by
      obtain ⟨d, ds, rfl⟩ := List.exists_cons_of_ne_nil (h.ne_nil hc)
      exact fun hreturn hd => hr ds hreturn (congrArg (· :: ds) (Option.some.inj hd))
    rw [List.cons_append, lines_cons hc hhead, ih h.tail, hlines]
    rfl

end

/-! ## Comments -/

/-- Text in which no comment is opened is left as it is. -/
theorem stripComments_eq_self {cs : List Char} (h : ¬commentOpening <:+: cs) : stripComments cs = cs := by
  have hnone : ∀ {ds : List Char}, ¬commentOpening <+: ds → comment? ds = none := by
    intro ds hp
    unfold comment? strip?
    rw [if_neg fun hb => hp (List.isPrefixOf_iff_prefix.1 hb)]
    rfl
  have hcs := hnone fun hp => h hp.isInfix
  rw [stripComments]
  split
  · rename_i hsome
    rw [hcs] at hsome
    cases hsome
  · cases cs with
    | nil => rfl
    | cons c cs =>
      show c :: stripComments cs = c :: cs
      rw [stripComments_eq_self fun hi => h (hi.trans (List.suffix_cons c cs).isInfix)]
termination_by cs.length

/-! ## Lines put together -/

/-- A line that is kept as it is: it mentions a declaring element and opens no comment. -/
structure IsKept (line : List Char) : Prop where
  single : '\n' ∉ line
  ended : line.getLast? ≠ some '\r'
  mentions : isDeclaration line = true
  plain : ¬commentOpening <:+: line

/-- Some lines in their order, with any number of other lines before, between and after them. -/
inductive Interspersed : List (List Char) → List (List Char) → Prop
  | nil : Interspersed [] []
  | kept {line : List Char} {kept all : List (List Char)} (h : Interspersed kept all) :
      Interspersed (line :: kept) (line :: all)
  | other {line : List Char} {kept all : List (List Char)} (hl : IsOther line) (h : Interspersed kept all) :
      Interspersed kept (line :: all)

theorem IsKept.ne_nil {line : List Char} (h : IsKept line) : line ≠ [] := by
  rintro rfl
  exact absurd h.mentions (by decide)

/-- Of a first line and the rest of a text, the line is kept iff it is a declaration. -/
theorem filter_lines_intercalate {kept all : List (List Char)} (h : Interspersed kept all)
    (hk : ∀ line ∈ kept, IsKept line) : (lines (['\n'].intercalate all)).filter isDeclaration = kept := by
  induction h with
  | nil => rfl
  | @kept line kept all h ih =>
    have hline := hk line List.mem_cons_self
    have hrest := ih fun l hl => hk l (List.mem_cons_of_mem _ hl)
    cases all with
    | nil =>
      cases h
      rw [List.intercalate_singleton, lines_eq_singleton hline.single hline.ne_nil,
        List.filter_cons_of_pos hline.mentions]
      rfl
    | cons next all =>
      obtain ⟨start, -, hs, hl⟩ := exists_lines_append hline.single (['\n'].intercalate (next :: all))
      rw [List.intercalate_cons_cons, List.append_assoc, List.singleton_append, hl, hs hline.ended,
        List.filter_cons_of_pos hline.mentions, hrest]
  | @other line kept all ho h ih =>
    have hrest := ih hk
    cases all with
    | nil =>
      cases h
      rw [List.intercalate_singleton]
      by_cases hne : line = []
      · rw [hne]
        rfl
      · rw [lines_eq_singleton ho.single hne,
          List.filter_cons_of_neg (by simp [ho.isDeclaration_prefix (List.prefix_refl _)])]
        rfl
    | cons next all =>
      obtain ⟨start, hp, -, hl⟩ := exists_lines_append ho.single (['\n'].intercalate (next :: all))
      rw [List.intercalate_cons_cons, List.append_assoc, List.singleton_append, hl,
        List.filter_cons_of_neg (by simp [ho.isDeclaration_prefix hp]), hrest]

/-- The declaration lines of a text are those that were put into it. -/
theorem declarationLines_intercalate {kept all : List (List Char)} (h : Interspersed kept all)
    (hk : ∀ line ∈ kept, IsKept line) : declarationLines (['\n'].intercalate all) = kept := by
  unfold declarationLines
  rw [filter_lines_intercalate h hk]
  -- no kept line has a comment to lose
  conv => rhs; rw [← List.map_id kept]
  exact List.map_congr_left fun line hl => stripComments_eq_self (hk line hl).plain

end ResourceClient.Source
