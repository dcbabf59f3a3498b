/-
Tags in all the forms they may be written in: names in any letter case, and attributes behind blanks, with
their values in quotes of either kind. A tag is cut at its own bracket, whatever stands in its quotes, and is
read as the event of its folded name and of its attributes in order.
-/
import ResourceClient.Proofs.Markup.Reading
import ResourceClient.Proofs.Text.Ascii
import ResourceClient.Proofs.Text.Blank

namespace ResourceClient.Markup

open Text

/-! ## Forms -/

/-- The characters of names. -/
def isNameSign (c : Char) : Bool :=
  c.isAlphanum || c == '_' || c == ':' || c == '.' || c == '-'

/-- A name as it is written, in any letter case. -/
structure IsWrittenName (name : List Char) : Prop where
  ne_nil : name ≠ []
  signs : ∀ c ∈ name, isNameSign c = true

/-- A run of the blanks that may stand inside of a tag. -/
def Gap (cs : List Char) : Prop :=
  ∀ c ∈ cs, isMarkupBlank c = true

/-- The texts of attributes: each stands behind a gap, and its value between two quotes of a kind that does
not occur in it. -/
inductive AttributesForm : List RawAttribute → List Char → Prop
  | nil : AttributesForm [] []
  | cons {gap : List Char} {a : RawAttribute} {quote : Char} {as : List RawAttribute} {more : List Char}
      (hne : gap ≠ []) (hg : Gap gap) (hk : IsWrittenName a.key) (hq : quote = '\x22' ∨ quote = '\x27')
      (hv : quote ∉ a.value) (h : AttributesForm as more) :
      AttributesForm (a :: as) (gap ++ a.key ++ '=' :: quote :: (a.value ++ quote :: more))

/-! ## Characters -/

theorem not_blank_of_isNameSign {c : Char} (h : isNameSign c = true) : isMarkupBlank c = false := by
  rw [Bool.eq_false_iff]
  intro hb
  simp only [isMarkupBlank, Bool.or_eq_true, beq_iff_eq] at hb
  rcases hb with ((rfl | rfl) | rfl) | rfl <;> exact absurd h (by decide)

theorem isKeyChar_of_isNameSign {c : Char} (h : isNameSign c = true) : isKeyChar c = true := by
  have hne : c ≠ '=' := ne_of_class h (by decide)
  simp [isKeyChar, hne, not_blank_of_isNameSign h]

theorem gap_nil : Gap [] :=
  fun _ h => nomatch h

theorem Gap.cons {c : Char} {gap : List Char} (hc : isMarkupBlank c = true) (h : Gap gap) : Gap (c :: gap) :=
  List.forall_mem_cons.2 ⟨hc, h⟩

/-- The first character of a name opens no other piece of markup. -/
theorem IsWrittenName.exists_cons {name : List Char} (h : IsWrittenName name) :
    ∃ c cs, name = c :: cs ∧ isNameSign c = true := by
  obtain ⟨c, cs, rfl⟩ := List.exists_cons_of_ne_nil h.ne_nil
  exact ⟨c, cs, rfl, h.signs c List.mem_cons_self⟩

/-! ## Cutting -/

/-- Puts characters before the content that has been cut off. -/
def before (cs : List Char) (cut : Option (List Char × List Char)) : Option (List Char × List Char) :=
  cut.map fun (content, rest) => (cs ++ content, rest)

theorem before_append (a b : List Char) (cut : Option (List Char × List Char)) :
    before (a ++ b) cut = before a (before b cut) := by
  cases cut <;> simp [before]

/-- A text without the end of a tag: it leaves no quote open, and its brackets stand in quotes. -/
def Passed (text : List Char) : Prop :=
  ∀ cs, cutTag none (text ++ cs) = before text (cutTag none cs)

theorem passed_nil : Passed [] := by
  intro cs
  cases hc : cutTag none cs <;> simp [before, hc]

theorem Passed.append {a b : List Char} (ha : Passed a) (hb : Passed b) : Passed (a ++ b) := by
  intro cs
  rw [List.append_assoc, ha, hb, before_append]

theorem passed_character {c : Char} (h : c ≠ '>' ∧ c ≠ '\x22' ∧ c ≠ '\x27') : Passed [c] := by
  intro cs
  rw [List.singleton_append, cutTag, if_neg h.1, if_neg (by simp [h.2.1, h.2.2])]
  rfl

theorem passed_plain {text : List Char} (h : ∀ c ∈ text, c ≠ '>' ∧ c ≠ '\x22' ∧ c ≠ '\x27') : Passed text := by
  induction text with
  | nil => exact passed_nil
  | cons c text ih =>
    exact (passed_character (h c List.mem_cons_self)).append (ih fun d hd => h d (List.mem_cons_of_mem _ hd))

theorem passed_name {name : List Char} (h : IsWrittenName name) : Passed name :=
  passed_plain fun _ hc =>
    ⟨ne_of_class (h.signs _ hc) (by decide), ne_of_class (h.signs _ hc) (by decide),
      ne_of_class (h.signs _ hc) (by decide)⟩

theorem passed_gap {gap : List Char} (h : Gap gap) : Passed gap :=
  passed_plain fun _ hc =>
    ⟨ne_of_class (h _ hc) (by decide), ne_of_class (h _ hc) (by decide), ne_of_class (h _ hc) (by decide)⟩

/-- Between quotes everything is passed over. -/
theorem cutTag_quoted {quote : Char} {text : List Char} (h : quote ∉ text) (cs : List Char) :
    cutTag (some quote) (text ++ quote :: cs) = before (text ++ [quote]) (cutTag none cs) := by
  induction text with
  | nil =>
    rw [List.nil_append, cutTag, if_pos rfl]
    rfl
  | cons c text ih =>
    have hc : c ≠ quote := fun e => h (e ▸ List.mem_cons_self)
    rw [List.cons_append, cutTag, if_neg hc, ih fun hm => h (List.mem_cons_of_mem _ hm), List.cons_append]
    cases cutTag none cs <;> rfl

theorem passed_quoted {quote : Char} {text : List Char} (hq : quote = '\x22' ∨ quote = '\x27')
    (h : quote ∉ text) : Passed (quote :: (text ++ [quote])) := by
  intro cs
  have hassoc : quote :: (text ++ [quote]) ++ cs = quote :: (text ++ quote :: cs) := by simp
  have hbracket : quote ≠ '>' := by rcases hq with rfl | rfl <;> decide
  rw [hassoc, cutTag, if_neg hbracket, if_pos hq, cutTag_quoted h]
  cases cutTag none cs <;> rfl

theorem AttributesForm.passed {as : List RawAttribute} {text : List Char} (h : AttributesForm as text) :
    Passed text := by
  induction h with
  | nil => exact passed_nil
  | @cons gap a quote as more hne hg hk hq hv h ih =>
    have heq : Passed ['='] := passed_character (by decide)
    have hall := ((((passed_gap hg).append (passed_name hk)).append heq).append (passed_quoted hq hv)).append ih
    simpa using hall

/-- The end of some attributes is the blank or the quote that ends the last of them. -/
theorem AttributesForm.getLast? {as : List RawAttribute} {text : List Char} (h : AttributesForm as text) :
    ∀ c, text.getLast? = some c → c ≠ '/' := by
  induction h with
  | nil => intro c hc; cases hc
  | @cons gap a quote as more hne hg hk hq hv h ih =>
    intro c hc
    have hassoc : gap ++ a.key ++ '=' :: quote :: (a.value ++ quote :: more) =
        (gap ++ a.key ++ '=' :: quote :: a.value) ++ [quote] ++ more := by simp
    rw [hassoc, List.getLast?_append, List.getLast?_concat] at hc
    rcases Option.or_eq_some_iff.1 hc with hc | ⟨-, hc⟩
    · exact ih c hc
    · cases hc
      rcases hq with rfl | rfl <;> decide

/-! ## Tags -/

/-- The texts between the brackets of a tag that opens an element: its name, its attributes and a gap. -/
def ContentForm (name : List Char) (as : List RawAttribute) (content : List Char) : Prop :=
  ∃ attributes gap, content = name ++ (attributes ++ gap) ∧ IsWrittenName name ∧ AttributesForm as attributes ∧ Gap gap

namespace ContentForm

variable {name content : List Char} {as : List RawAttribute}

theorem passed (h : ContentForm name as content) : Passed content := by
  obtain ⟨attributes, gap, rfl, hn, ha, hg⟩ := h
  exact (passed_name hn).append (ha.passed.append (passed_gap hg))

theorem exists_cons (h : ContentForm name as content) : ∃ c cs, content = c :: cs ∧ isNameSign c = true := by
  obtain ⟨attributes, gap, rfl, hn, -, -⟩ := h
  obtain ⟨c, cs, rfl, hc⟩ := hn.exists_cons
  exact ⟨c, _, rfl, hc⟩

/-- A tag is told from an empty one by its last character, also when a value ends in a slash. -/
theorem getLast? (h : ContentForm name as content) : content.getLast? ≠ some '/' := by
  obtain ⟨attributes, gap, rfl, hn, ha, hg⟩ := h
  rw [List.getLast?_append, List.getLast?_append]
  intro hlast
  rcases Option.or_eq_some_iff.1 hlast with hlast | ⟨-, hlast⟩
  · rcases Option.or_eq_some_iff.1 hlast with hlast | ⟨-, hlast⟩
    · exact absurd (hg _ (List.mem_of_getLast? hlast)) (by decide)
    · exact ha.getLast? _ hlast rfl
  · exact absurd (hn.signs _ (List.mem_of_getLast? hlast)) (by decide)

end ContentForm

/-- After a bracket that no sign of another piece of markup follows, a tag is read. -/
theorem step_of_cutTag {c : Char} {cs content rest : List Char} (hc : c ≠ '!' ∧ c ≠ '?')
    (h : cutTag none (c :: cs) = some (content, rest)) : step ('<' :: c :: cs) = .tag (.ofContent content) rest := by
  have hmarkup : readMarkup (c :: cs) = readTag (c :: cs) := by
    rw [readMarkup]
    all_goals
      intro more he
      obtain ⟨rfl, -⟩ := List.cons.inj he
    · exact hc.1 rfl
    · exact hc.1 rfl
    · exact hc.1 rfl
    · exact hc.2 rfl
  rw [step, hmarkup, readTag, h]

section

variable {name content : List Char} {as : List RawAttribute}

/-- An opening tag is cut at its own bracket. -/
theorem step_opening (h : ContentForm name as content) (rest : List Char) :
    step ('<' :: (content ++ ['>']) ++ rest) = .tag (.opening content) rest := by
  have hcut : cutTag none (content ++ '>' :: rest) = some (content, rest) := by
    rw [h.passed, cutTag, if_pos rfl]
    simp [before]
  obtain ⟨c, cs, hcs, hc⟩ := h.exists_cons
  have hkind : Tag.ofContent content = .opening content := by
    rw [hcs, Tag.ofContent, if_neg (hcs ▸ h.getLast?)]
    intro more he
    obtain ⟨rfl, -⟩ := List.cons.inj he
    exact absurd hc (by decide)
  have hassoc : '<' :: (content ++ ['>']) ++ rest = '<' :: (content ++ '>' :: rest) := by simp
  rw [hassoc]
  rw [hcs] at hcut hkind ⊢
  rw [List.cons_append] at hcut ⊢
  rw [step_of_cutTag ⟨ne_of_class hc (by decide), ne_of_class hc (by decide)⟩ hcut, hkind]

/-- So is the tag of an element without an inside, whose slash is none of its own. -/
theorem step_empty (h : ContentForm name as content) (rest : List Char) :
    step ('<' :: (content ++ ['/', '>']) ++ rest) = .tag (.empty content) rest := by
  have hslash : Passed ['/'] := passed_character (by decide)
  have hcut : cutTag none (content ++ '/' :: '>' :: rest) = some (content ++ ['/'], rest) := by
    have hall := h.passed.append hslash ('>' :: rest)
    rw [cutTag, if_pos rfl, List.append_assoc] at hall
    rw [← List.singleton_append, hall]
    simp [before]
  obtain ⟨c, cs, hcs, hc⟩ := h.exists_cons
  have hkind : Tag.ofContent (content ++ ['/']) = .empty content := by
    rw [hcs, List.cons_append, Tag.ofContent, ← List.cons_append, if_pos List.getLast?_concat, List.dropLast_concat]
    intro more he
    obtain ⟨rfl, -⟩ := List.cons.inj he
    exact absurd hc (by decide)
  have hassoc : '<' :: (content ++ ['/', '>']) ++ rest = '<' :: (content ++ '/' :: '>' :: rest) := by simp
  rw [hassoc]
  rw [hcs] at hcut hkind ⊢
  rw [List.cons_append] at hcut ⊢
  rw [step_of_cutTag ⟨ne_of_class hc (by decide), ne_of_class hc (by decide)⟩ hcut, hkind]

theorem step_closing {gap : List Char} (hn : IsWrittenName name) (hg : Gap gap) (rest : List Char) :
    step ('<' :: '/' :: (name ++ gap ++ ['>']) ++ rest) = .tag (.closing (name ++ gap)) rest := by
  have hslash : Passed ['/'] := passed_character (by decide)
  have hcut : cutTag none ('/' :: (name ++ gap ++ '>' :: rest)) = some ('/' :: (name ++ gap), rest) := by
    have hall := (hslash.append ((passed_name hn).append (passed_gap hg))) ('>' :: rest)
    rw [cutTag, if_pos rfl] at hall
    simpa [before] using hall
  have hassoc : '<' :: '/' :: (name ++ gap ++ ['>']) ++ rest = '<' :: '/' :: (name ++ gap ++ '>' :: rest) := by simp
  rw [hassoc, step_of_cutTag (by decide) hcut]
  rfl

end

/-! ## Reading attributes -/

section

variable {a : RawAttribute} {quote : Char} {c : Char} {cs : List Char}

theorem readValue_quoted {value : List Char} (hq : quote = '\x22' ∨ quote = '\x27') (hv : quote ∉ value) (size : Nat)
    (more : List Char) : readValue size (quote :: (value ++ quote :: more)) = .ok (value, more) := by
  have hblank : isMarkupBlank quote = false := by rcases hq with rfl | rfl <;> decide
  have hvalue : ∀ d ∈ value, (d != quote) = true := by
    intro d hd
    rw [bne_iff_ne]
    rintro rfl
    exact hv hd
  unfold readValue
  rw [List.dropWhile_cons_of_neg (by simp [hblank])]
  simp only [hq, ↓reduceIte]
  rw [dropWhile_append_cons_of_all hvalue (by simp)]
  simp only
  rw [takeWhile_append_cons hvalue (by simp)]

theorem readAttribute_form (hk : IsWrittenName a.key) (hc : a.key = c :: cs) (hq : quote = '\x22' ∨ quote = '\x27')
    (hv : quote ∉ a.value) (size : Nat) (more : List Char) :
    readAttribute size c (cs ++ '=' :: quote :: (a.value ++ quote :: more)) = .ok (a, more) := by
  have hkey : ∀ d ∈ cs, isKeyChar d = true := fun d hd =>
    isKeyChar_of_isNameSign (hk.signs d (by rw [hc]; exact List.mem_cons_of_mem _ hd))
  unfold readAttribute
  rw [dropWhile_append_cons_of_all hkey (by decide), List.dropWhile_cons_of_neg (by decide)]
  simp only
  rw [readValue_quoted hq hv, takeWhile_append_cons hkey (by decide), ← hc]
  rfl

end

theorem readAttributes_gap {gap : List Char} (h : Gap gap) (size : Nat) : readAttributes size gap = .ok [] := by
  have hdrop : gap.dropWhile isMarkupBlank = [] := List.dropWhile_eq_nil_iff.2 h
  rw [readAttributes]
  split
  · rfl
  · rename_i hcons
    rw [hdrop] at hcons
    cases hcons

/-- Attributes are read back from each of their forms, a gap behind them or not. -/
theorem AttributesForm.readAttributes {as : List RawAttribute} {text gap : List Char} (h : AttributesForm as text)
    (hgap : Gap gap) (size : Nat) : readAttributes size (text ++ gap) = .ok as := by
  induction h with
  | nil => exact readAttributes_gap hgap size
  | @cons front a quote as more hne hg hk hq hv h ih =>
    obtain ⟨c, cs, hcs, hc⟩ := hk.exists_cons
    have hdrop : (front ++ a.key ++ '=' :: quote :: (a.value ++ quote :: more) ++ gap).dropWhile isMarkupBlank =
        c :: (cs ++ '=' :: quote :: (a.value ++ quote :: (more ++ gap))) := by
      have hassoc : front ++ a.key ++ '=' :: quote :: (a.value ++ quote :: more) ++ gap =
          front ++ c :: (cs ++ '=' :: quote :: (a.value ++ quote :: (more ++ gap))) := by simp [hcs]
      rw [hassoc, dropWhile_append_cons_of_all hg (not_blank_of_isNameSign hc)]
    have hread := readAttribute_form hk hcs hq hv size (more ++ gap)
    rw [Markup.readAttributes]
    split
    · rename_i hnil
      rw [hdrop] at hnil
      cases hnil
    · rename_i c' more' hcons
      rw [hdrop] at hcons
      obtain ⟨rfl, rfl⟩ := List.cons.inj hcons
      split
      · rename_i f hf
        rw [hread] at hf
        cases hf
      · rename_i b rest hok
        rw [hread] at hok
        cases hok
        -- what follows the quote is read by induction
        rw [ih]
        rfl

/-! ## Events of tags -/

section

variable {name content : List Char} {as : List RawAttribute}

/-- The name of a tag ends where its attributes begin. -/
theorem ContentForm.parts (h : ContentForm name as content) :
    content.takeWhile (fun c => !isMarkupBlank c) = name ∧
    ∃ attributes gap, AttributesForm as attributes ∧ Gap gap ∧
      content.dropWhile (fun c => !isMarkupBlank c) = attributes ++ gap := by
  obtain ⟨attributes, gap, rfl, hn, ha, hg⟩ := h
  have hname : ∀ c ∈ name, (!isMarkupBlank c) = true := by
    intro c hc
    rw [not_blank_of_isNameSign (hn.signs c hc)]
    rfl
  -- what follows the name is nothing, or a blank
  have hrest : attributes ++ gap = [] ∨ ∃ b more, attributes ++ gap = b :: more ∧ isMarkupBlank b = true := by
    cases ha with
    | nil =>
      cases gap with
      | nil => exact .inl rfl
      | cons b more => exact .inr ⟨b, more, rfl, hg b List.mem_cons_self⟩
    | @cons front a quote as more hne hf hk hq hv h =>
      obtain ⟨b, front, rfl⟩ := List.exists_cons_of_ne_nil hne
      exact .inr ⟨b, _, rfl, hf b List.mem_cons_self⟩
  refine ⟨?_, attributes, gap, ha, hg, ?_⟩
  · rcases hrest with hr | ⟨b, more, hr, hb⟩ <;> rw [hr]
    · rw [List.append_nil, List.takeWhile_eq_self_iff]
      exact hname
    · exact takeWhile_append_cons hname (by simp [hb])
  · rcases hrest with hr | ⟨b, more, hr, hb⟩ <;> rw [hr]
    · rw [List.append_nil, List.dropWhile_eq_nil_iff]
      exact hname
    · exact dropWhile_append_cons_of_all hname (by simp [hb])

theorem ContentForm.tagName (h : ContentForm name as content) :
    tagName content = String.ofList (foldChars name) := by
  rw [Markup.tagName, h.parts.1]

theorem ContentForm.tagAttributes (h : ContentForm name as content) :
    tagAttributes content = .ok (.ofList (as.map RawAttribute.entry)) := by
  obtain ⟨-, attributes, gap, ha, hg, hdrop⟩ := h.parts
  rw [Markup.tagAttributes, hdrop, ha.readAttributes hg]
  rfl

theorem readsAs_opening (h : ContentForm name as content) : ReadsAs ('<' :: (content ++ ['>']))
    [.opening (String.ofList (foldChars name)) (.ofList (as.map RawAttribute.entry))] := by
  refine .of_tag (step_opening h) ?_
  rw [Event.ofTag, h.tagAttributes, h.tagName]
  rfl

theorem readsAs_empty (h : ContentForm name as content) : ReadsAs ('<' :: (content ++ ['/', '>']))
    [.empty (String.ofList (foldChars name)) (.ofList (as.map RawAttribute.entry))] := by
  refine .of_tag (step_empty h) ?_
  rw [Event.ofTag, h.tagAttributes, h.tagName]
  rfl

theorem readsAs_closing {gap : List Char} (hn : IsWrittenName name) (hg : Gap gap) :
    ReadsAs ('<' :: '/' :: (name ++ gap ++ ['>'])) [.closing (String.ofList (foldChars name))] := by
  refine .of_tag (step_closing hn hg) ?_
  have hdrop : dropEndWhile isMarkupBlank (name ++ gap) = name := by
    rw [dropEndWhile_append_of_all hg, dropEndWhile_of_none fun c hc => not_blank_of_isNameSign (hn.signs c hc)]
  rw [Event.ofTag, closingName, hdrop, if_neg (by simp [hn.ne_nil])]

end

end ResourceClient.Markup
