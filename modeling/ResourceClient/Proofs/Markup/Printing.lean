/-
Parsing undoes printing. A forest may be printed in many ways: the attributes of an element stand in any
order, the letters of a name in either case, blanks between tags and inside of them, an element without
children is one tag or two, and an argument declaration may lack its closing tag. Each of these texts is parsed
into the forest.

The proof follows the printed text: it is read as events that spell the forest, whatever stands behind it.
-/
import ResourceClient.Proofs.Markup.Nesting
import ResourceClient.Proofs.Markup.ReferenceText
import ResourceClient.Proofs.Markup.TagForms
import Mathlib.Data.List.Sort

namespace ResourceClient.Markup

open Text

/-! ## What can be printed -/

/-- A name in lower case that begins with a letter. -/
structure IsPrintableName (name : String) : Prop where
  first : ∃ c cs, name.toList = c :: cs ∧ c.isLower = true
  signs : ∀ c ∈ name.toList, isNameSign c = true ∧ c.isUpper = false

theorem isPrintableName_of_all {name : String} (hf : name.toList.head?.any Char.isLower = true)
    (hs : name.toList.all (fun c => isNameSign c && !c.isUpper) = true) : IsPrintableName name where
  first := by
    cases hname : name.toList with
    | nil => rw [hname] at hf; cases hf
    | cons c cs =>
      rw [hname] at hf
      exact ⟨c, cs, rfl, hf⟩
  signs := by
    intro c hc
    simpa using List.all_eq_true.1 hs c hc

/-- A forest of elements with printable names and keys, of which argument declarations have no children. -/
inductive IsPrintable : Forest → Prop
  | nil : IsPrintable []
  | cons {name : String} {attributes : Attributes} {children forest : Forest} (hn : IsPrintableName name)
      (hk : ∀ e ∈ attributes.entries, IsPrintableName e.1) (hv : name = "cfargument" → children = [])
      (hc : IsPrintable children) (h : IsPrintable forest) : IsPrintable (⟨name, attributes, children⟩ :: forest)

/-! ## Texts -/

/-- How a value writes a character: the entity of one that means something in markup, any other itself. -/
def entity (c : Char) : List Char :=
  if c = '&' then "&amp;".toList
  else if c = '<' then "&lt;".toList
  else if c = '>' then "&gt;".toList
  else if c = '\x22' then "&quot;".toList
  else [c]

/-- The texts of entries, in their order: a key in any letter case, and its value between double quotes. -/
inductive PrintsEntries : List (String × String) → List Char → Prop
  | nil : PrintsEntries [] []
  | cons {gap written : List Char} {key value : String} {entries : List (String × String)} {more : List Char}
      (hne : gap ≠ []) (hg : Gap gap) (hk : foldChars written = key.toList) (h : PrintsEntries entries more) :
      PrintsEntries ((key, value) :: entries)
        (gap ++ written ++ '=' :: '\x22' :: (value.toList.flatMap entity ++ '\x22' :: more))

/-- The texts between the brackets of the tag that opens an element, a slash of its own apart: its name in any
letter case and its attributes in any order. -/
def PrintsTag (name : String) (attributes : Attributes) (content : List Char) : Prop :=
  ∃ written entries text gap, content = written ++ (text ++ gap) ∧ foldChars written = name.toList ∧
    entries.Perm attributes.entries ∧ PrintsEntries entries text ∧ Gap gap

/-- The closing tags of a name, in any letter case. -/
def PrintsClosing (name : String) (tag : List Char) : Prop :=
  ∃ written gap, tag = '<' :: '/' :: (written ++ gap ++ ['>']) ∧ foldChars written = name.toList ∧ Gap gap

/-- The texts of a forest. -/
inductive Prints : Forest → List Char → Prop
  | nil : Prints [] []
  | blank {c : Char} {forest : Forest} {text : List Char} (hc : isBlank c = true) (h : Prints forest text) :
      Prints forest (c :: text)
  /-- An element without children in one tag. -/
  | empty {name : String} {attributes : Attributes} {content : List Char} {forest : Forest} {text : List Char}
      (ht : PrintsTag name attributes content) (h : Prints forest text) :
      Prints (⟨name, attributes, []⟩ :: forest) ('<' :: (content ++ ['/', '>']) ++ text)
  /-- An element around its children, or around blanks only. -/
  | nested {name : String} {attributes : Attributes} {content inner closing : List Char} {children forest : Forest}
      {text : List Char} (hv : name ≠ "cfargument") (ht : PrintsTag name attributes content)
      (hi : Prints children inner) (hc : PrintsClosing name closing) (h : Prints forest text) :
      Prints (⟨name, attributes, children⟩ :: forest) ('<' :: (content ++ ['>']) ++ inner ++ closing ++ text)
  /-- An argument declaration, which needs no closing tag. -/
  | argument {attributes : Attributes} {content slash blanks closing : List Char} {forest : Forest}
      {text : List Char} (ht : PrintsTag "cfargument" attributes content) (hs : slash = [] ∨ slash = ['/'])
      (hb : Blank blanks) (hc : closing = [] ∨ PrintsClosing "cfargument" closing) (h : Prints forest text) :
      Prints (⟨"cfargument", attributes, []⟩ :: forest)
        ('<' :: (content ++ slash ++ ['>']) ++ blanks ++ closing ++ text)

/-! ## There is a text -/

theorem IsPrintableName.foldChars {name : String} (h : IsPrintableName name) :
    foldChars name.toList = name.toList := by
  unfold Text.foldChars
  conv => rhs; rw [← List.map_id name.toList]
  refine List.map_congr_left fun c hc => ?_
  exact toLower_of_not_isUpper (h.signs c hc).2

theorem exists_printsEntries (entries : List (String × String)) (h : ∀ e ∈ entries, IsPrintableName e.1) :
    ∃ text, PrintsEntries entries text := by
  induction entries with
  | nil => exact ⟨[], .nil⟩
  | cons e entries ih =>
    obtain ⟨text, ht⟩ := ih fun d hd => h d (List.mem_cons_of_mem _ hd)
    exact ⟨_, .cons (List.cons_ne_nil ' ' []) (gap_nil.cons rfl) (h e List.mem_cons_self).foldChars ht⟩

theorem exists_printsTag {name : String} {attributes : Attributes} (hn : IsPrintableName name)
    (hk : ∀ e ∈ attributes.entries, IsPrintableName e.1) : ∃ content, PrintsTag name attributes content := by
  obtain ⟨text, ht⟩ := exists_printsEntries attributes.entries hk
  exact ⟨_, name.toList, attributes.entries, text, [], rfl, hn.foldChars, .refl _, ht, gap_nil⟩

/-- Every printable forest has a text. -/
theorem IsPrintable.exists_prints {forest : Forest} (h : IsPrintable forest) : ∃ text, Prints forest text := by
  induction h with
  | nil => exact ⟨[], .nil⟩
  | @cons name attributes children forest hn hk hv _ _ ihc ih =>
    obtain ⟨content, ht⟩ := exists_printsTag hn hk
    obtain ⟨inner, hi⟩ := ihc
    obtain ⟨text, hf⟩ := ih
    by_cases hname : name = "cfargument"
    · rw [hv hname]
      exact ⟨_, .empty ht hf⟩
    · exact ⟨_, .nested hname ht hi ⟨name.toList, [], rfl, hn.foldChars, gap_nil⟩ hf⟩

/-! ## Names and values -/

/-- Folding leaves signs of names signs of names, and makes none of any other character. -/
theorem isNameSign_of_toLower {c : Char} (h : isNameSign c.toLower = true) : isNameSign c = true := by
  by_cases hc : c.isUpper = true
  · rw [isUpper_iff] at hc
    simp only [isNameSign, Bool.or_eq_true, isAlphanum_iff]
    omega
  · rwa [toLower_of_not_isUpper (by simpa using hc)] at h

theorem IsPrintableName.isWrittenName {name : String} {written : List Char} (h : IsPrintableName name)
    (hw : Text.foldChars written = name.toList) : IsWrittenName written where
  ne_nil := by
    rintro rfl
    obtain ⟨c, cs, hc, -⟩ := h.first
    rw [← hw] at hc
    cases hc
  signs := by
    intro c hc
    refine isNameSign_of_toLower (h.signs _ ?_).1
    rw [← hw]
    exact List.mem_map_of_mem hc

theorem decode?_entity (value : List Char) : decode? (value.flatMap entity) = some value := by
  induction value with
  | nil => rw [List.flatMap_nil, decode?]
  | cons c value ih =>
    have hone : decode? (entity c ++ value.flatMap entity) = (decode? (value.flatMap entity)).map (c :: ·) := by
      unfold entity
      split_ifs with h1 h2 h3 h4
      · rw [h1]; exact @decode?_reference "amp".toList '&' rfl _
      · rw [h2]; exact @decode?_reference "lt".toList '<' rfl _
      · rw [h3]; exact @decode?_reference "gt".toList '>' rfl _
      · rw [h4]; exact @decode?_reference "quot".toList '\x22' rfl _
      · exact decode?_cons_plain h1 _
    rw [List.flatMap_cons, hone, ih]
    rfl

theorem quote_not_mem_entity (value : List Char) : '\x22' ∉ value.flatMap entity := by
  intro hm
  obtain ⟨c, -, hc⟩ := List.mem_flatMap.1 hm
  unfold entity at hc
  split_ifs at hc with h1 h2 h3 h4
  · exact absurd hc (by decide)
  · exact absurd hc (by decide)
  · exact absurd hc (by decide)
  · exact absurd hc (by decide)
  · exact h4 (List.mem_singleton.1 hc).symm

/-! ## Attributes in any order -/

namespace Attributes

theorem insertEntry_perm {key value : String} {es : List (String × String)} (h : ∀ e ∈ es, e.1 ≠ key) :
    (insertEntry key value es).Perm ((key, value) :: es) := by
  induction es with
  | nil => exact .refl _
  | cons e es ih =>
    obtain ⟨k, v⟩ := e
    unfold insertEntry
    rw [if_neg (Ne.symm (h _ List.mem_cons_self))]
    split
    · exact .refl _
    · exact ((ih fun e he => h e (List.mem_cons_of_mem _ he)).cons _).trans (.swap ..)

/-- Entries of distinct keys are all kept, beside those that were there. -/
theorem foldl_insert_perm {es : List (String × String)} {a : Attributes} (hd : es.Pairwise (·.1 ≠ ·.1))
    (ha : ∀ e ∈ es, ∀ f ∈ a.entries, f.1 ≠ e.1) :
    (es.foldl (fun a e => a.insert e.1 e.2) a).entries.Perm (es ++ a.entries) := by
  induction es generalizing a with
  | nil => exact .refl _
  | cons e es ih =>
    obtain ⟨hfirst, hd⟩ := List.pairwise_cons.1 hd
    have hinsert : (a.insert e.1 e.2).entries.Perm (e :: a.entries) := insertEntry_perm (ha e List.mem_cons_self)
    refine (ih hd fun d hmem f hf => ?_).trans ((hinsert.append_left es).trans List.perm_middle)
    rcases List.mem_cons.1 (hinsert.subset hf) with rfl | hf
    · exact hfirst d hmem
    · exact ha d (List.mem_cons_of_mem _ hmem) f hf

/-- The entries of a map make the map, in whatever order. -/
theorem ofList_perm {es : List (String × String)} {a : Attributes} (h : es.Perm a.entries) : ofList es = a := by
  have hkeys : es.Pairwise (·.1 ≠ ·.1) :=
    (a.sorted.imp fun hlt => Std.ne_of_lt hlt).perm h.symm fun hne => Ne.symm hne
  have hfold : (ofList es).entries.Perm (es ++ []) := foldl_insert_perm hkeys fun _ _ _ hf => nomatch hf
  rw [List.append_nil] at hfold
  have hall := hfold.trans h
  exact ext (hall.eq_of_pairwise (fun e f _ _ h1 h2 => absurd h1 (String.lt_asymm h2)) (ofList es).sorted a.sorted)

end Attributes

/-! ## Reading back -/

theorem PrintsEntries.form {entries : List (String × String)} {text : List Char} (h : PrintsEntries entries text)
    (hk : ∀ e ∈ entries, IsPrintableName e.1) :
    ∃ as, AttributesForm as text ∧ as.map RawAttribute.entry = entries := by
  induction h with
  | nil => exact ⟨[], .nil, rfl⟩
  | @cons gap written key value entries more hne hg hw h ih =>
    obtain ⟨as, ha, rfl⟩ := ih fun e he => hk e (List.mem_cons_of_mem _ he)
    have hentry : RawAttribute.entry ⟨written, value.toList.flatMap entity⟩ = (key, value) := by
      rw [RawAttribute.entry, hw, valueOf, decode?_entity, Option.getD_some, String.ofList_toList,
        String.ofList_toList]
    exact ⟨⟨written, value.toList.flatMap entity⟩ :: as,
      .cons hne hg ((hk _ List.mem_cons_self).isWrittenName hw) (.inl rfl) (quote_not_mem_entity _) ha,
      by rw [List.map_cons, hentry]⟩

section

variable {name : String} {attributes : Attributes} {content : List Char}

theorem PrintsTag.form (h : PrintsTag name attributes content) (hn : IsPrintableName name)
    (hk : ∀ e ∈ attributes.entries, IsPrintableName e.1) :
    ∃ written as, ContentForm written as content ∧ String.ofList (foldChars written) = name ∧
      .ofList (as.map RawAttribute.entry) = attributes := by
  obtain ⟨written, entries, text, gap, rfl, hw, hperm, he, hg⟩ := h
  obtain ⟨as, ha, rfl⟩ := he.form fun e he => hk e (hperm.subset he)
  exact ⟨written, as, ⟨text, gap, rfl, hn.isWrittenName hw, ha, hg⟩, by rw [hw, String.ofList_toList],
    Attributes.ofList_perm hperm⟩

variable (hn : IsPrintableName name) (hk : ∀ e ∈ attributes.entries, IsPrintableName e.1)

include hn hk

theorem PrintsTag.readsAs_opening (h : PrintsTag name attributes content) :
    ReadsAs ('<' :: (content ++ ['>'])) [.opening name attributes] := by
  obtain ⟨written, as, hform, rfl, rfl⟩ := h.form hn hk
  exact Markup.readsAs_opening hform

theorem PrintsTag.readsAs_empty (h : PrintsTag name attributes content) :
    ReadsAs ('<' :: (content ++ ['/', '>'])) [.empty name attributes] := by
  obtain ⟨written, as, hform, rfl, rfl⟩ := h.form hn hk
  exact Markup.readsAs_empty hform

end

theorem PrintsClosing.readsAs {name : String} {tag : List Char} (h : PrintsClosing name tag)
    (hn : IsPrintableName name) : ReadsAs tag [.closing name] := by
  obtain ⟨written, gap, rfl, hw, hg⟩ := h
  have hread := readsAs_closing (hn.isWrittenName hw) hg
  rwa [hw, String.ofList_toList] at hread

theorem readsAs_blank {c : Char} (hc : isBlank c = true) : ReadsAs [c] [] :=
  .plain (ne_of_class hc (by decide)) (ne_of_class hc (by decide))

theorem readsAs_blanks {blanks : List Char} (h : Blank blanks) : ReadsAs blanks [] := by
  induction blanks with
  | nil => exact .nil
  | cons c blanks ih =>
    exact (readsAs_blank (h c List.mem_cons_self)).append (ih fun d hd => h d (List.mem_cons_of_mem _ hd))

/-- An argument declaration counts as one event, however it is printed. -/
theorem regular_argument {attributes : Attributes} {es : List Event}
    (h : es = [.opening "cfargument" attributes] ∨ es = [.empty "cfargument" attributes]) (closing : List Event)
    (hc : closing = [] ∨ closing = [.closing "cfargument"]) :
    regular (es ++ closing) = [.empty "cfargument" attributes] := by
  rcases h with rfl | rfl <;> rcases hc with rfl | rfl <;> rfl

/-- A printed text is read as events that spell its forest. -/
theorem Prints.readsAs {forest : Forest} {text : List Char} (h : Prints forest text) (hp : IsPrintable forest) :
    ∃ es, ReadsAs text es ∧ Spells (regular es) forest := by
  induction h with
  | nil => exact ⟨[], .nil, .nil⟩
  | blank hc _ ih =>
    obtain ⟨es, hr, hs⟩ := ih hp
    exact ⟨es, (readsAs_blank hc).append hr, hs⟩
  | @empty name attributes content forest text ht _ ih =>
    cases hp with | cons hn hk _ _ hf
    obtain ⟨es, hr, hs⟩ := ih hf
    exact ⟨_, (ht.readsAs_empty hn hk).append hr, .empty hs⟩
  | @nested name attributes content inner closing children forest text hv ht _ hc _ ihi ih =>
    cases hp with | cons hn hk _ hchildren hf
    obtain ⟨ei, hri, hsi⟩ := ihi hchildren
    obtain ⟨es, hr, hs⟩ := ih hf
    have hvoid : isVoid name = false := by simpa [isVoid] using hv
    refine ⟨_, (((ht.readsAs_opening hn hk).append hri).append (hc.readsAs hn)).append hr, ?_⟩
    -- the tags of the element stand around the events of its children
    rw [List.singleton_append, List.cons_append, regular_append, regular_nested hvoid, List.cons_append,
      List.append_assoc, List.singleton_append]
    exact .nested hsi hs
  | @argument attributes content slash blanks closing forest text ht hslash hb hc _ ih =>
    cases hp with | cons hn hk _ _ hf
    obtain ⟨es, hr, hs⟩ := ih hf
    have htag : ∃ et, ReadsAs ('<' :: (content ++ slash ++ ['>'])) et ∧
        (et = [.opening "cfargument" attributes] ∨ et = [.empty "cfargument" attributes]) := by
      rcases hslash with rfl | rfl
      · rw [List.append_nil]
        exact ⟨_, ht.readsAs_opening hn hk, .inl rfl⟩
      · rw [List.append_assoc]
        exact ⟨_, ht.readsAs_empty hn hk, .inr rfl⟩
    have hclosing : ∃ ec, ReadsAs closing ec ∧ (ec = [] ∨ ec = [.closing "cfargument"]) := by
      rcases hc with rfl | hc
      · exact ⟨_, .nil, .inl rfl⟩
      · exact ⟨_, hc.readsAs hn, .inr rfl⟩
    obtain ⟨et, hrt, het⟩ := htag
    obtain ⟨ec, hrc, hec⟩ := hclosing
    refine ⟨_, ((hrt.append (readsAs_blanks hb)).append hrc).append hr, ?_⟩
    rw [List.append_nil, regular_append, regular_argument het ec hec]
    exact .empty hs

/-- Every printable forest has texts, and each of them is parsed into it. -/
theorem parse_prints {forest : Forest} (h : IsPrintable forest) :
    (∃ text, Prints forest text) ∧ ∀ text, Prints forest text → parse (String.ofList text) = .ok forest := by
  refine ⟨h.exists_prints, fun text hp => ?_⟩
  obtain ⟨es, hr, hs⟩ := hp.readsAs h
  have hevents := hr.events
  rw [parse_eq_of_events (by rw [hevents]), hevents, hs.ofEvents isRegular_of_mem_regular]
  rfl

/-- An element in capitals with an argument declaration that is not closed, and a value with entities. -/
theorem parse_prints_capitals :
    let forest : Forest := [⟨"a", .ofList [("x", "1<\x22")], [⟨"cfargument", {}, []⟩]⟩]
    let text := "<A X=\x221&lt;&quot;\x22>\n<cfArgument></a>"
    IsPrintable forest ∧ Prints forest text.toList ∧ parse text = .ok forest := by
  intro forest text
  have ha : IsPrintableName "a" := isPrintableName_of_all (by decide) (by decide)
  have hx : IsPrintableName "x" := isPrintableName_of_all (by decide) (by decide)
  have hargument : IsPrintableName "cfargument" := isPrintableName_of_all (by decide +kernel) (by decide +kernel)
  have hproper : IsPrintable forest := by
    refine .cons ha (fun e he => ?_) (by decide) (.cons hargument (fun e he => nomatch he) (fun _ => rfl) .nil .nil) .nil
    obtain rfl : e = ("x", "1<\x22") := List.mem_singleton.1 he
    exact hx
  have hprints : Prints forest text.toList := by
    -- the text in the parts that are printed one after the other
    let attributes := [' '] ++ ['X'] ++ '=' :: '\x22' :: ("1<\x22".toList.flatMap entity ++ '\x22' :: [])
    let inner := '\n' :: ('<' :: ("cfArgument".toList ++ [] ++ ['>']) ++ [] ++ [] ++ [])
    have htext : text.toList =
        '<' :: ((['A'] ++ (attributes ++ [])) ++ ['>']) ++ inner ++ ('<' :: '/' :: (['a'] ++ [] ++ ['>'])) ++ [] := by
      decide +kernel
    have hattributes : PrintsEntries [("x", "1<\x22")] attributes :=
      .cons (List.cons_ne_nil ' ' []) (gap_nil.cons rfl) (by decide) .nil
    have hinner : Prints [⟨"cfargument", {}, []⟩] inner :=
      .blank (by decide) (.argument ⟨"cfArgument".toList, [], [], [], by simp, by decide, .refl _, .nil, gap_nil⟩
        (.inl rfl) (by simp [Blank]) (.inl rfl) .nil)
    rw [htext]
    exact .nested (by decide) ⟨['A'], _, _, [], rfl, by decide, .refl _, hattributes, gap_nil⟩ hinner
      ⟨['a'], [], rfl, by decide, gap_nil⟩ .nil
  refine ⟨hproper, hprints, ?_⟩
  have hparse := (parse_prints hproper).2 _ hprints
  rwa [String.ofList_toList] at hparse

end ResourceClient.Markup
