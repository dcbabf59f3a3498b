/-
Templates whose placeholders each open a path segment. The names that the segments of such a template give
are those of its placeholders, and these are also the slots that are left in its clean form: dropping
control characters and blank ends keeps the placeholders, dropping constraints makes slots of them, and
collapsing slashes changes only what stands between them.
-/
import ResourceClient.Proofs.Text.Ascii
import ResourceClient.Proofs.Text.Blank
import ResourceClient.Uri.Template

namespace ResourceClient.Template

open Text

/-! ## Characters -/

theorem range_of_isSlotChar {c : Char} (h : isSlotChar c = true) : 48 ≤ c.toNat ∧ c.toNat ≤ 122 := by
  rw [isSlotChar, Bool.or_eq_true, isAlphanum_iff, beq_iff_eq] at h
  rcases h with h | rfl
  · omega
  · decide

theorem not_blank_of_isSlotChar {c : Char} (h : isSlotChar c = true) : isBlank c = false := by
  have hr := range_of_isSlotChar h
  simp only [isBlank, Bool.or_eq_false_iff, Bool.and_eq_false_iff, decide_eq_false_iff_not, beq_eq_false_iff_ne]
  omega

theorem not_control_of_isSlotChar {c : Char} (h : isSlotChar c = true) : isControl c = false := by
  have hr := range_of_isSlotChar h
  simp only [isControl, Bool.or_eq_false_iff, Bool.and_eq_false_iff, decide_eq_false_iff_not]
  omega

/-- The characters that end what a placeholder or a segment is read from. -/
def isMark (c : Char) : Bool :=
  isBrace c || c == ':' || c == '/'

/-- A class that has none of the four marks. -/
theorem not_mark_of_class {p : Char → Bool} {c : Char} (h : p c = true)
    (hp : (['{', '}', ':', '/'].all fun mark => !p mark) = true) : isMark c = false := by
  have hne : ∀ mark ∈ ['{', '}', ':', '/'], c ≠ mark := fun mark hm =>
    ne_of_class h (by simpa using List.all_eq_true.1 hp mark hm)
  simp only [isMark, isBrace, Bool.or_eq_false_iff, beq_eq_false_iff_ne]
  exact ⟨⟨⟨hne _ (by simp), hne _ (by simp)⟩, hne _ (by simp)⟩, hne _ (by simp)⟩

theorem not_mark_of_isSlotChar {c : Char} (h : isSlotChar c = true) : isMark c = false :=
  not_mark_of_class h (by decide)

theorem not_mark_of_isBlank {c : Char} (h : isBlank c = true) : isMark c = false :=
  not_mark_of_class h (by decide)

/-- What is no mark neither ends a name nor opens or closes a placeholder. -/
theorem not_colon_brace_of_not_mark {c : Char} (h : isMark c = false) : (c != ':' && !isBrace c) = true := by
  simp only [isMark, Bool.or_eq_false_iff, beq_eq_false_iff_ne] at h
  simp [h]

/-! ## Templates as they are written -/

/-- A text without braces. -/
def BraceFree (cs : List Char) : Prop :=
  ∀ c ∈ cs, isBrace c = false

/-- A name that a slot can have. -/
def IsName (cs : List Char) : Prop :=
  cs ≠ [] ∧ ∀ c ∈ cs, isSlotChar c = true

theorem braceFree_of_all {cs : List Char} (h : (cs.all fun c => !isBrace c) = true) : BraceFree cs := by
  intro c hc
  simpa using List.all_eq_true.1 h c hc

theorem IsName.not_mark {name : List Char} (h : IsName name) : ∀ c ∈ name, isMark c = false := fun c hc =>
  not_mark_of_isSlotChar (h.2 c hc)

theorem IsName.slash_not_mem {name : List Char} (h : IsName name) : '/' ∉ name := fun hm =>
  absurd (h.not_mark _ hm) (by decide)

/-- Among a name and the blanks around it is no mark. -/
theorem IsName.not_mark_between {before name after : List Char} (h : IsName name) (hb : Blank before)
    (ha : Blank after) : ∀ c ∈ before ++ name ++ after, isMark c = false := by
  intro c hmem
  simp only [List.mem_append] at hmem
  rcases hmem with (hmem | hmem) | hmem
  · exact not_mark_of_isBlank (hb c hmem)
  · exact h.not_mark c hmem
  · exact not_mark_of_isBlank (ha c hmem)

theorem IsName.trim_between {before name after : List Char} (h : IsName name) (hb : Blank before)
    (ha : Blank after) : trim (before ++ name ++ after) = name :=
  trim_word hb (fun c hmem => not_blank_of_isSlotChar (h.2 c hmem)) ha h.1

theorem IsName.trim_eq {name : List Char} (h : IsName name) : trim name = name := by
  have ht := h.trim_between (List.forall_mem_nil _ : Blank []) (List.forall_mem_nil _ : Blank [])
  simpa using ht

/-- The text of a placeholder with some name: the name in braces, or between blanks before a constraint. -/
inductive Placeholder : List Char → List Char → Prop
  | plain {name : List Char} (h : IsName name) : Placeholder name ('{' :: name ++ ['}'])
  | constrained {name before after constraint : List Char} (h : IsName name) (hb : Blank before)
      (ha : Blank after) (hc : BraceFree constraint) :
      Placeholder name ('{' :: (before ++ name ++ after) ++ ':' :: constraint ++ ['}'])

/-- A text after which a segment opens: blanks only, or with nothing but blanks after its last slash. -/
def Opens (cs : List Char) : Prop :=
  Blank cs ∨ ∃ a b, cs = a ++ '/' :: b ∧ Blank b

/-- A template of texts without braces and placeholders that open their segments, with the names of the
placeholders in order. -/
inductive Slotted : List Char → List (List Char) → Prop
  | text {t : List Char} (h : BraceFree t) : Slotted t []
  | slot {pre p t name : List Char} {names : List (List Char)} (h : Slotted pre names) (ho : Opens pre)
      (hp : Placeholder name p) (ht : BraceFree t) : Slotted (pre ++ (p ++ t)) (names ++ [name])

/-- A template of texts without braces and placeholders in any places, with the names of the placeholders in
order. -/
inductive Placed : List Char → List (List Char) → Prop
  | text {t : List Char} (h : BraceFree t) : Placed t []
  | slot {pre p t name : List Char} {names : List (List Char)} (h : Placed pre names)
      (hp : Placeholder name p) (ht : BraceFree t) : Placed (pre ++ (p ++ t)) (names ++ [name])

theorem Slotted.placed {cs : List Char} {names : List (List Char)} (h : Slotted cs names) : Placed cs names := by
  induction h with
  | text h => exact .text h
  | slot h ho hp ht ih => exact .slot ih hp ht

theorem Placeholder.isName {name p : List Char} (h : Placeholder name p) : IsName name := by
  cases h <;> assumption

/-! ## Parameters -/

/-- A placeholder is a brace, the name between blanks, a mark behind it, and a rest that opens no brace. -/
theorem Placeholder.exists_name {name p : List Char} (h : Placeholder name p) :
    ∃ word mark more, p = '{' :: word ++ mark :: more ∧ (mark = '}' ∨ mark = ':') ∧
      (∀ c ∈ word, isMark c = false) ∧ trim word = name ∧ '{' ∉ more := by
  cases h with
  | plain h =>
    exact ⟨name, '}', [], rfl, .inl rfl, h.not_mark, h.trim_eq, by simp⟩
  | constrained h hb ha hc =>
    rename_i before after constraint
    refine ⟨before ++ name ++ after, ':', constraint ++ ['}'], by simp, .inr rfl, h.not_mark_between hb ha,
      h.trim_between hb ha, ?_⟩
    intro hmem
    rcases List.mem_append.1 hmem with hmem | hmem
    · exact absurd (hc _ hmem) (by decide)
    · exact absurd hmem (by decide)

theorem segmentParameter?_of_not_mem {segment : List Char} (h : '{' ∉ segment) :
    segmentParameter? segment = none := by
  unfold segmentParameter?
  split
  · rename_i inner ht
    exact absurd (trim_sublist.subset (by rw [ht]; exact List.mem_cons_self)) h
  · rfl

/-- A segment that a placeholder opens gives the name of it. -/
theorem segmentParameter?_eq_some {before word more : List Char} {mark : Char} (hb : Blank before)
    (hw : ∀ c ∈ word, isMark c = false) (hm : mark = '}' ∨ mark = ':') (hne : trim word ≠ []) :
    segmentParameter? (before ++ '{' :: word ++ mark :: more) = some (String.ofList (trim word)) := by
  have hmark : isBlank mark = false := by rcases hm with rfl | rfl <;> decide
  have htrim : trim (before ++ '{' :: word ++ mark :: more) =
      '{' :: (word ++ mark :: dropEndWhile isBlank more) := by
    rw [List.append_assoc, List.cons_append, trim_append_cons (by decide), List.dropWhile_eq_nil_iff.2 hb,
      dropEndWhile_append_cons hmark]
    rfl
  have hbrace : ∀ c ∈ word, (c != '}') = true ∧ (c != ':') = true := by
    intro c hc
    have := hw c hc
    simp only [isMark, isBrace, Bool.or_eq_false_iff, beq_eq_false_iff_ne] at this
    simp [this]
  have hcolon : word.takeWhile (· != ':') = word :=
    List.takeWhile_eq_self_iff.2 fun c hc => (hbrace c hc).2
  have hname : ((word ++ mark :: dropEndWhile isBlank more).takeWhile (· != '}')).takeWhile (· != ':') =
      word := by
    -- a closing brace stops the first search, a colon only the second
    rcases hm with rfl | rfl
    · rw [takeWhile_append_cons (fun c hc => (hbrace c hc).1) (by decide), hcolon]
    · rw [List.takeWhile_append_of_pos (fun c hc => (hbrace c hc).1), List.takeWhile_cons_of_pos (by decide),
        takeWhile_append_cons (fun c hc => (hbrace c hc).2) (by decide)]
  unfold segmentParameter?
  rw [htrim]
  simp only [hname]
  rw [if_neg (by simpa using hne)]

/-- The parameters that the segments of a text give. -/
def parametersOf (cs : List Char) : List String :=
  (cs.splitOn '/').filterMap segmentParameter?

theorem parametersOf_append_slash (a b : List Char) :
    parametersOf (a ++ '/' :: b) = parametersOf a ++ parametersOf b := by
  unfold parametersOf
  rw [List.splitOn_append_cons_self, List.filterMap_append]

theorem parametersOf_segment {cs : List Char} (h : '/' ∉ cs) :
    parametersOf cs = (segmentParameter? cs).toList := by
  unfold parametersOf
  rw [List.splitOn_eq_singleton h]
  cases hs : segmentParameter? cs <;> simp [hs]

theorem subset_of_mem_splitOn {segment cs : List Char} (h : segment ∈ cs.splitOn '/') : segment ⊆ cs := by
  induction cs generalizing segment with
  | nil =>
    rw [List.splitOn_nil, List.mem_singleton] at h
    rw [h]
    exact List.Subset.refl _
  | cons c cs ih =>
    obtain ⟨head, more, hs⟩ := List.exists_cons_of_ne_nil (List.splitOn_ne_nil '/' cs)
    have hhead : head ⊆ cs := ih (by rw [hs]; exact List.mem_cons_self)
    rw [List.splitOn_cons_eq_if_modifyHead, hs] at h
    split at h
    · rcases List.mem_cons.1 h with rfl | h
      · exact List.nil_subset _
      · exact List.Subset.trans (ih (by rw [hs]; exact h)) (List.subset_cons_self c cs)
    · rcases List.mem_cons.1 h with rfl | h
      · exact List.cons_subset_cons c hhead
      · exact List.Subset.trans (ih (by rw [hs]; exact List.mem_cons_of_mem _ h)) (List.subset_cons_self c cs)

theorem parametersOf_of_not_mem {cs : List Char} (h : '{' ∉ cs) : parametersOf cs = [] := by
  unfold parametersOf
  rw [List.filterMap_eq_nil_iff]
  intro segment hs
  exact segmentParameter?_of_not_mem fun hb => h (subset_of_mem_splitOn hs hb)

theorem BraceFree.not_mem {cs : List Char} (h : BraceFree cs) : '{' ∉ cs :=
  fun hm => absurd (h _ hm) (by decide)

theorem Blank.not_mem {cs : List Char} {c : Char} (h : Blank cs) (hc : isBlank c = false) : c ∉ cs := by
  intro hm
  rw [h c hm] at hc
  cases hc

/-- A segment is read up to the next slash, and a rest in which no brace opens gives no name of its own. -/
theorem exists_segment {start rest : List Char} (hs : '/' ∉ start) (hr : '{' ∉ rest) :
    ∃ r, parametersOf (start ++ rest) = (segmentParameter? (start ++ r)).toList := by
  by_cases h : '/' ∈ rest
  · obtain ⟨a, b, rfl, ha⟩ := List.eq_append_cons_of_mem h
    refine ⟨a, ?_⟩
    rw [← List.append_assoc, parametersOf_append_slash, parametersOf_segment (by simp [hs, ha]),
      parametersOf_of_not_mem fun hb => hr (by simp [hb]), List.append_nil]
  · exact ⟨rest, parametersOf_segment (by simp [hs, h])⟩

/-- From the opening of its segment on, a placeholder and the text behind it give the one name. -/
theorem parametersOf_placeholder {before p t name : List Char} (hb : Blank before) (hn : name ≠ [])
    (hp : Placeholder name p) (ht : BraceFree t) :
    parametersOf (before ++ (p ++ t)) = [String.ofList name] := by
  obtain ⟨word, mark, more, rfl, hm, hw, rfl, hmore⟩ := hp.exists_name
  have hslash : '/' ∉ before ++ '{' :: word ++ [mark] := by
    have h1 := Blank.not_mem hb (c := '/') (by decide)
    have h2 : '/' ∉ word := fun h => absurd (hw _ h) (by decide)
    rcases hm with rfl | rfl <;> simp [h1, h2]
  have hrest : '{' ∉ more ++ t := by simp [hmore, ht.not_mem]
  have hassoc : before ++ ('{' :: word ++ mark :: more ++ t) =
      (before ++ '{' :: word ++ [mark]) ++ (more ++ t) := by simp
  obtain ⟨r, hr⟩ := exists_segment hslash hrest
  have hback : (before ++ '{' :: word ++ [mark]) ++ r = before ++ '{' :: word ++ mark :: r := by simp
  rw [hassoc, hr, hback, segmentParameter?_eq_some hb hw hm hn]
  rfl

/-- The parameters of a template are the names of its placeholders. -/
theorem parametersOf_slotted {cs : List Char} {names : List (List Char)} (h : Slotted cs names) :
    parametersOf cs = names.map String.ofList := by
  induction h with
  | text h => exact parametersOf_of_not_mem h.not_mem
  | @slot pre p t name names h ho hp ht ih =>
    have hn : name ≠ [] := hp.isName.1
    rw [List.map_append, ← ih]
    -- what stands before the segment of the placeholder gives the names before, and no other
    rcases ho with hb | ⟨a, b, rfl, hb⟩
    · rw [parametersOf_placeholder hb hn hp ht, parametersOf_of_not_mem (Blank.not_mem hb (by decide))]
      rfl
    · rw [List.append_assoc, List.cons_append, parametersOf_append_slash, parametersOf_append_slash,
        parametersOf_placeholder hb hn hp ht, parametersOf_of_not_mem (Blank.not_mem hb (by decide)),
        List.append_nil]
      rfl

end ResourceClient.Template
