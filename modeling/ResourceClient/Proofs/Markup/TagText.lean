/-
Tags and their texts: one form for each tag, which fills a line. A tag that is written with its attributes in
double quotes is read back as the event of its name and attributes, whatever the values of the attributes.
-/
import ResourceClient.Proofs.Markup.ReferenceText
import ResourceClient.Proofs.Markup.TagForms
import Mathlib.Data.List.Forall2

namespace ResourceClient.Markup

open Text

/-! ## Writing -/

/-- A name as tags and attributes bear it: some letters in lower case, or underscores. -/
def isNameChar (c : Char) : Bool :=
  c.isLower || c == '_'

structure IsTagName (name : String) : Prop where
  ne_nil : name.toList ≠ []
  chars : name.toList.all isNameChar = true

/-- The text of one attribute, from the blank before it to the quote that ends it. -/
def attributeText (key : String) (text : List Char) : List Char :=
  ' ' :: (key.toList ++ '=' :: '\x22' :: (text ++ ['\x22']))

/-- The texts of keys and values as attributes of a tag. -/
inductive WritesAttributes : List (String × String) → List Char → Prop
  | nil : WritesAttributes [] []
  | cons {key value : String} {text more : List Char} {entries : List (String × String)} (hk : IsTagName key)
      (hv : Writes value.toList text) (h : WritesAttributes entries more) :
      WritesAttributes ((key, value) :: entries) (attributeText key text ++ more)

/-- The texts of an opening tag with some attributes. -/
def WritesOpening (name : String) (entries : List (String × String)) (line : List Char) : Prop :=
  ∃ attributes, WritesAttributes entries attributes ∧ line = '<' :: (name.toList ++ attributes ++ ['>'])

def closingText (name : String) : List Char :=
  '<' :: '/' :: (name.toList ++ ['>'])

/-- An opening tag that tells characters of values apart only where it has to. -/
def openingText (name : String) (entries : List (String × String)) : List Char :=
  '<' :: (name.toList ++ entries.flatMap (fun e => attributeText e.1 (e.2.toList.flatMap escapeChar)) ++ ['>'])

theorem writesOpening_text (name : String) {entries : List (String × String)}
    (h : ∀ e ∈ entries, IsTagName e.1) : WritesOpening name entries (openingText name entries) := by
  refine ⟨_, ?_, rfl⟩
  induction entries with
  | nil => exact .nil
  | cons e entries ih =>
    exact .cons (h e List.mem_cons_self) (writes_escape _) (ih fun d hd => h d (List.mem_cons_of_mem _ hd))

/-! ## Characters -/

theorem range_of_isNameChar {c : Char} (h : isNameChar c = true) : 95 ≤ c.toNat ∧ c.toNat ≤ 122 := by
  rw [isNameChar, Bool.or_eq_true, isLower_iff, beq_iff_eq] at h
  rcases h with h | rfl
  · omega
  · decide

theorem IsTagName.mem {name : String} (h : IsTagName name) : ∀ c ∈ name.toList, isNameChar c = true :=
  List.all_eq_true.1 h.chars

theorem IsTagName.foldChars {name : String} (h : IsTagName name) : foldChars name.toList = name.toList := by
  unfold Text.foldChars
  conv => rhs; rw [← List.map_id name.toList]
  refine List.map_congr_left fun c hc => ?_
  refine toLower_of_not_isUpper ?_
  rw [Bool.eq_false_iff, ne_eq, isUpper_iff]
  have hr := range_of_isNameChar (h.mem c hc)
  omega

/-! ## Forms of tags -/

theorem IsTagName.isWrittenName {name : String} (h : IsTagName name) : IsWrittenName name.toList where
  ne_nil := h.ne_nil
  signs := by
    intro c hc
    have hname := h.mem c hc
    simp only [isNameChar, Bool.or_eq_true, isLower_iff, beq_iff_eq] at hname
    simp only [isNameSign, Bool.or_eq_true, isAlphanum_iff, beq_iff_eq]
    tauto

theorem Writes.not_mem_quote {value text : List Char} (h : Writes value text) : '\x22' ∉ text :=
  fun hm => absurd (h.isTextChar _ hm) (by decide)

/-- The text of some entries is a form of attributes that make these entries. -/
theorem WritesAttributes.form {entries : List (String × String)} {text : List Char} (h : WritesAttributes entries text) :
    ∃ as, AttributesForm as text ∧ as.map RawAttribute.entry = entries := by
  induction h with
  | nil => exact ⟨[], .nil, rfl⟩
  | @cons key value text more entries hk hv h ih =>
    obtain ⟨as, ha, rfl⟩ := ih
    have hentry : RawAttribute.entry ⟨key.toList, text⟩ = (key, value) := by
      rw [RawAttribute.entry, hk.foldChars, hv.valueOf, String.ofList_toList, String.ofList_toList]
    refine ⟨⟨key.toList, text⟩ :: as, ?_, by rw [List.map_cons, hentry]⟩
    have hform : AttributesForm (⟨key.toList, text⟩ :: as)
        ([' '] ++ key.toList ++ '=' :: '\x22' :: (text ++ '\x22' :: more)) :=
      .cons (by simp) (gap_nil.cons rfl) hk.isWrittenName (.inl rfl) hv.not_mem_quote ha
    simpa [attributeText] using hform

/-! ## Events of lines -/

/-- A line that is read as one event, whatever follows it. -/
def IsLineOf (e : Event) (line : List Char) : Prop :=
  line.head? = some '<' ∧ ∀ size rest, readEvents size (line ++ rest) =
    (e :: (readEvents size rest).1, (readEvents size rest).2)

theorem isLineOf_opening {name : String} {entries : List (String × String)} {line : List Char}
    (hn : IsTagName name) (h : WritesOpening name entries line) : IsLineOf (.opening name (.ofList entries)) line := by
  obtain ⟨attributes, ha, rfl⟩ := h
  obtain ⟨as, hform, rfl⟩ := ha.form
  have hcontent : ContentForm name.toList as (name.toList ++ attributes) :=
    ⟨attributes, [], by rw [List.append_nil], hn.isWrittenName, hform, gap_nil⟩
  have hread := readsAs_opening hcontent
  rw [hn.foldChars, String.ofList_toList] at hread
  exact ⟨rfl, hread⟩

theorem isLineOf_closing {name : String} (hn : IsTagName name) : IsLineOf (.closing name) (closingText name) := by
  have hread := readsAs_closing hn.isWrittenName gap_nil
  rw [List.append_nil, hn.foldChars, String.ofList_toList] at hread
  exact ⟨rfl, hread⟩

/-- Lines of one tag each are read as their events. -/
theorem readsAs_lines {es : List Event} {lines : List (List Char)} (h : List.Forall₂ IsLineOf es lines) :
    ReadsAs (['\n'].intercalate lines) es := by
  induction h with
  | nil => exact .nil
  | @cons e line es lines hl h ih =>
    have hline : ReadsAs line [e] := hl.2
    cases h with
    | nil =>
      rw [List.intercalate_singleton]
      exact hline
    | cons hnext h =>
      rw [List.intercalate_cons_cons]
      exact (hline.append (.plain (by decide) (by decide))).append ih

theorem events_lines {es : List Event} {lines : List (List Char)} (h : List.Forall₂ IsLineOf es lines) :
    events (String.ofList (['\n'].intercalate lines)) = (es, none) :=
  (readsAs_lines h).events

end ResourceClient.Markup
