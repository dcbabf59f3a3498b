/-
What the attributes of a tag stand for. A value is the text between its quotes with all references replaced, or this
text as it is when one of its ampersands begins no reference; of the values that are written for one key, in whatever
letter case, the last counts. No value keeps a tag from being read.
-/
import ResourceClient.Proofs.Markup.Nesting
import ResourceClient.Proofs.Markup.ReferenceText
import ResourceClient.Proofs.Markup.TagForms
import ResourceClient.Proofs.Text.LetterCase
import Mathlib.Data.List.Induction

namespace ResourceClient.Markup

open Text

/-! ## References -/

/-- The numerals of a number: its digits in a base, of which the letters stand in either case. -/
inductive Numeral (base : Nat) : List Char → Nat → Prop
  | digit {c : Char} {v : Nat} (hv : v < base) (hc : c.toLower = Nat.digitChar v) : Numeral base [c] v
  | concat {digits : List Char} {n : Nat} {c : Char} {v : Nat} (h : Numeral base digits n) (hv : v < base)
      (hc : c.toLower = Nat.digitChar v) : Numeral base (digits ++ [c]) (n * base + v)

/-- What a reference stands for, by what is between its ampersand and semicolon: the character of an entity, or
that of a number in decimal or, behind an `x`, in hexadecimal. Nothing refers to the null character. -/
inductive Refers : List Char → Char → Prop
  | lt : Refers ['l', 't'] '<'
  | gt : Refers ['g', 't'] '>'
  | amp : Refers ['a', 'm', 'p'] '&'
  | apos : Refers ['a', 'p', 'o', 's'] '\x27'
  | quot : Refers ['q', 'u', 'o', 't'] '\x22'
  | decimal {digits : List Char} {c : Char} (h : Numeral 10 digits c.toNat) (hc : c ≠ '\x00') :
      Refers ('#' :: digits) c
  | hexadecimal {digits : List Char} {c : Char} (h : Numeral 16 digits c.toNat) (hc : c ≠ '\x00') :
      Refers ('#' :: 'x' :: digits) c

/-- Whether every ampersand of a text begins a reference. -/
def AmpersandsRefer (text : List Char) : Prop :=
  ∀ front rest, text = front ++ '&' :: rest → ∃ name c more, Refers name c ∧ rest = name ++ ';' :: more

/-- A text and what it is when each of its references is replaced by its character. -/
inductive Decodes : List Char → List Char → Prop
  | nil : Decodes [] []
  | plain {c : Char} {text value : List Char} (hc : c ≠ '&') (h : Decodes text value) : Decodes (c :: text) (c :: value)
  | reference {name : List Char} {c : Char} {text value : List Char} (hr : Refers name c) (h : Decodes text value) :
      Decodes ('&' :: (name ++ ';' :: text)) (c :: value)

/-- What the text between two quotes stands for. -/
structure Denotes (text value : List Char) : Prop where
  decoded : AmpersandsRefer text → Decodes text value
  kept : ¬AmpersandsRefer text → value = text

/-! ## Numerals -/

section

variable {base n v : Nat} {c : Char} {digits : List Char}

theorem digit?_sixteen_iff : number?.digit? 16 c = some v ↔ v < 16 ∧ c.toLower = Nat.digitChar v := by
  have hlow : ∀ v < 16, (Nat.digitChar v).toNat < 128 := by decide
  by_cases hascii : c.toNat < 128
  · constructor
    · intro h
      have hv : v < 16 := by
        unfold number?.digit? at h
        simpa using (Option.filter_eq_some_iff.1 h).2
      refine ⟨hv, ?_⟩
      exact of_ascii (p := fun c => ∀ v < 16, number?.digit? 16 c = some v → c.toLower = Nat.digitChar v)
        (by decide +kernel) hascii v hv h
    · rintro ⟨hv, hc⟩
      exact of_ascii (p := fun c => ∀ v < 16, c.toLower = Nat.digitChar v → number?.digit? 16 c = some v)
        (by decide +kernel) hascii v hv hc
  · refine iff_of_false (fun h => ?_) ?_
    · have halpha := isAlphanum_iff.1 (isAlphanum_of_digit? h)
      omega
    · rintro ⟨hv, hc⟩
      have hupper : c.isUpper = false := by
        rw [Bool.eq_false_iff, Ne, isUpper_iff]
        omega
      rw [toLower_of_not_isUpper hupper] at hc
      exact hascii (hc ▸ hlow v hv)

theorem digit?_eq_some_iff (hb : base ≤ 16) :
    number?.digit? base c = some v ↔ v < base ∧ c.toLower = Nat.digitChar v := by
  have hsixteen : number?.digit? base c = some v ↔ v < base ∧ number?.digit? 16 c = some v := by
    unfold number?.digit?
    simp only [Option.filter_eq_some_iff, decide_eq_true_eq]
    exact ⟨fun ⟨h, hv⟩ => ⟨hv, h, Nat.lt_of_lt_of_le hv hb⟩, fun ⟨hv, h, _⟩ => ⟨h, hv⟩⟩
  rw [hsixteen, digit?_sixteen_iff]
  exact ⟨fun ⟨hv, _, hc⟩ => ⟨hv, hc⟩, fun ⟨hv, hc⟩ => ⟨hv, Nat.lt_of_lt_of_le hv hb, hc⟩⟩

theorem number?_singleton (base : Nat) (c : Char) : number? base [c] = number?.digit? base c := by
  simp [number?]

theorem number?_concat (hne : digits ≠ []) (c : Char) :
    number? base (digits ++ [c]) =
      (number? base digits).bind fun n => (number?.digit? base c).map (n * base + ·) := by
  simp [number?, hne]

theorem number?_eq_some_iff (hb : base ≤ 16) : number? base digits = some n ↔ Numeral base digits n := by
  constructor
  · intro h
    induction digits using List.reverseRecOn generalizing n with
    | nil => cases h
    | append_singleton digits c ih =>
      by_cases hne : digits = []
      · subst hne
        rw [List.nil_append, number?_singleton, digit?_eq_some_iff hb] at h
        exact .digit h.1 h.2
      · rw [number?_concat hne] at h
        obtain ⟨m, hm, h⟩ := Option.bind_eq_some_iff.1 h
        obtain ⟨v, hv, rfl⟩ := Option.map_eq_some_iff.1 h
        rw [digit?_eq_some_iff hb] at hv
        exact .concat (ih hm) hv.1 hv.2
  · intro h
    induction h with
    | digit hv hc => rw [number?_singleton, digit?_eq_some_iff hb]; exact ⟨hv, hc⟩
    | @concat digits n c v h hv hc ih =>
      have hne : digits ≠ [] := by rintro rfl; cases ih
      rw [number?_concat hne, ih, Option.bind_some, (digit?_eq_some_iff hb).2 ⟨hv, hc⟩]
      rfl

end

/-! ## Characters of references -/

section

variable {n : Nat} {c : Char} {name digits : List Char}

theorem scalar?_eq_some_iff : scalar? n = some c ↔ n = c.toNat ∧ c ≠ '\x00' := by
  unfold scalar?
  constructor
  · intro h
    split at h
    · rename_i hn
      cases h
      have hvalue : (Char.ofNat n).toNat = n := by
        rw [Char.ofNat, dif_pos hn.2]
        rfl
      refine ⟨hvalue.symm, fun hzero => ?_⟩
      rw [hzero] at hvalue
      exact absurd hvalue (Nat.ne_of_lt hn.1)
    · cases h
  · rintro ⟨rfl, hc⟩
    have hpos : 0 < c.toNat := Nat.pos_of_ne_zero fun hzero => hc (Char.toNat_inj.1 hzero)
    rw [if_pos ⟨hpos, c.valid⟩, Char.ofNat_toNat]

theorem bind_scalar?_iff {base : Nat} (hb : base ≤ 16) :
    (number? base digits).bind scalar? = some c ↔ Numeral base digits c.toNat ∧ c ≠ '\x00' := by
  rw [Option.bind_eq_some_iff]
  constructor
  · rintro ⟨n, hn, hscalar⟩
    obtain ⟨rfl, hc⟩ := scalar?_eq_some_iff.1 hscalar
    exact ⟨(number?_eq_some_iff hb).1 hn, hc⟩
  · rintro ⟨h, hc⟩
    exact ⟨c.toNat, (number?_eq_some_iff hb).2 h, scalar?_eq_some_iff.2 ⟨rfl, hc⟩⟩

theorem referent?_eq_some_iff : referent? name = some c ↔ Refers name c := by
  constructor
  · intro h
    unfold referent? at h
    split at h
    · cases h; exact .lt
    · cases h; exact .gt
    · cases h; exact .amp
    · cases h; exact .apos
    · cases h; exact .quot
    · obtain ⟨hn, hc⟩ := (bind_scalar?_iff (by decide)).1 h
      exact .hexadecimal hn hc
    · obtain ⟨hn, hc⟩ := (bind_scalar?_iff (by decide)).1 h
      exact .decimal hn hc
    · cases h
  · intro h
    cases h with
    | lt | gt | amp | apos | quot => rfl
    | @decimal digits c h hc =>
      -- no numeral in decimal begins with the `x` of the other kind
      have hx : ∀ more, digits ≠ 'x' :: more := by
        rintro more rfl
        have hfirst : number?.digit? 10 'x' = none := by decide
        have hnone : number? 10 ('x' :: more) = none := by simp [number?, hfirst]
        rw [(number?_eq_some_iff (by decide)).2 h] at hnone
        cases hnone
      rw [referent?]
      · exact (bind_scalar?_iff (by decide)).2 ⟨h, hc⟩
      · exact hx
    | hexadecimal h hc => exact (bind_scalar?_iff (by decide)).2 ⟨h, hc⟩

end

/-! ## Decoding -/

section

variable {text value : List Char}

theorem eq_of_reference? {cs name rest : List Char} (h : reference? cs = some (name, rest)) :
    cs = name ++ ';' :: rest := by
  unfold Markup.reference? at h
  split at h
  · rename_i more hdrop
    cases h
    rw [← hdrop, List.takeWhile_append_dropWhile]
  · cases h

theorem decode?_eq_some_iff : decode? text = some value ↔ Decodes text value := by
  constructor
  · intro h
    fun_induction decode? text generalizing value with
    | case1 => cases h; exact .nil
    | case2 cs name rest href _ c more hmore hc ih =>
      cases h
      rw [eq_of_reference? href]
      exact .reference (referent?_eq_some_iff.1 hc) (ih hmore)
    | case3 => cases h
    | case4 => cases h
    | case5 c cs hc ih =>
      obtain ⟨more, hmore, rfl⟩ := Option.map_eq_some_iff.1 h
      exact .plain hc (ih hmore)
  · intro h
    induction h with
    | nil => rw [decode?]
    | plain hc _ ih => rw [decode?_cons_plain hc, ih]; rfl
    | reference hr _ ih => rw [decode?_reference (referent?_eq_some_iff.2 hr), ih]; rfl

theorem ampersandsRefer_cons {c : Char} :
    AmpersandsRefer (c :: text) ↔
      (c = '&' → ∃ name d more, Refers name d ∧ text = name ++ ';' :: more) ∧ AmpersandsRefer text := by
  constructor
  · intro h
    exact ⟨fun hc => h [] text (hc ▸ rfl), fun front rest htext => h (c :: front) rest (htext ▸ rfl)⟩
  · rintro ⟨hfirst, h⟩ front rest htext
    cases front with
    | nil =>
      obtain ⟨rfl, rfl⟩ := List.cons.inj htext
      exact hfirst rfl
    | cons d front => exact h front rest (List.cons.inj htext).2

theorem ampersandsRefer_append {front : List Char} (hf : '&' ∉ front) :
    AmpersandsRefer (front ++ text) ↔ AmpersandsRefer text := by
  induction front with
  | nil => rfl
  | cons c front ih =>
    have hc : c ≠ '&' := fun hc => hf (hc ▸ List.mem_cons_self)
    rw [List.cons_append, ampersandsRefer_cons, ih fun hm => hf (List.mem_cons_of_mem _ hm)]
    exact and_iff_right fun he => absurd he hc

/-- Past a reference the text is as it was. -/
theorem Refers.ampersandsRefer_iff {name : List Char} {c : Char} (h : Refers name c) :
    AmpersandsRefer ('&' :: (name ++ ';' :: text)) ↔ AmpersandsRefer text := by
  have hname : '&' ∉ name := fun hm =>
    absurd (isReferenceChar_of_referent? (referent?_eq_some_iff.2 h) _ hm) (by decide)
  rw [ampersandsRefer_cons, ampersandsRefer_append hname, ampersandsRefer_cons, and_iff_right, and_iff_right]
  · exact fun he => absurd he (by decide)
  · exact fun _ => ⟨name, c, text, h, rfl⟩

/-- The texts that can be decoded are those in which every ampersand begins a reference. -/
theorem exists_decodes_iff : (∃ value, Decodes text value) ↔ AmpersandsRefer text := by
  constructor
  · rintro ⟨value, h⟩
    induction h with
    | nil => exact fun front rest htext => absurd htext (by simp)
    | plain hc _ ih => exact ampersandsRefer_cons.2 ⟨fun he => absurd he hc, ih⟩
    | reference hr _ ih => exact hr.ampersandsRefer_iff.2 ih
  · intro h
    induction hn : text.length using Nat.strong_induction_on generalizing text with
    | _ n ih =>
      cases text with
      | nil => exact ⟨[], .nil⟩
      | cons c text =>
        obtain ⟨hfirst, hrest⟩ := ampersandsRefer_cons.1 h
        subst hn
        by_cases hc : c = '&'
        · subst hc
          obtain ⟨name, d, more, hr, rfl⟩ := hfirst rfl
          have hlt : more.length < ('&' :: (name ++ ';' :: more)).length := by simp; omega
          obtain ⟨value, hv⟩ := ih _ hlt (hr.ampersandsRefer_iff.1 h) rfl
          exact ⟨d :: value, .reference hr hv⟩
        · obtain ⟨value, hv⟩ := ih _ (Nat.lt_succ_self _) hrest rfl
          exact ⟨c :: value, .plain hc hv⟩

/-- A text stands for one value, the one that its attribute gets. -/
theorem denotes_iff : Denotes text value ↔ valueOf text = value := by
  unfold valueOf
  by_cases h : AmpersandsRefer text
  · obtain ⟨decoded, hd⟩ := exists_decodes_iff.2 h
    have hsome := decode?_eq_some_iff.2 hd
    rw [hsome, Option.getD_some]
    constructor
    · intro hv
      exact Option.some.inj (hsome.symm.trans (decode?_eq_some_iff.2 (hv.decoded h)))
    · rintro rfl
      exact ⟨fun _ => hd, fun hn => absurd h hn⟩
  · have hnone : decode? text = none :=
      Option.eq_none_iff_forall_ne_some.2 fun v hv => h (exists_decodes_iff.1 ⟨v, decode?_eq_some_iff.1 hv⟩)
    rw [hnone, Option.getD_none]
    constructor
    · exact fun hv => (hv.kept h).symm
    · rintro rfl
      exact ⟨fun hr => absurd hr h, fun _ => rfl⟩

end

/-! ## Tags -/

/-- Whether a value is the one of a key: that of the last attribute written for it, in whatever letter case. -/
def IsLastValue (as : List RawAttribute) (key value : String) : Prop :=
  ∃ front a back, as = front ++ a :: back ∧ foldChars a.key = key.toList ∧ Denotes a.value value.toList ∧
    ∀ b ∈ back, foldChars b.key ≠ key.toList

theorem get?_ofList_eq_some_iff {es : List (String × String)} {key value : String} :
    (Attributes.ofList es).get? key = some value ↔
      ∃ front back, es = front ++ (key, value) :: back ∧ ∀ e ∈ back, e.1 ≠ key := by
  rw [Attributes.get?_ofList, List.lookup_eq_some_iff]
  constructor
  · rintro ⟨a, b, hes, ha⟩
    refine ⟨b.reverse, a.reverse, ?_, fun e he => ?_⟩
    · rw [← List.reverse_reverse es, hes]
      simp
    · exact Ne.symm (bne_iff_ne.1 (ha e (List.mem_reverse.1 he)))
  · rintro ⟨front, back, rfl, hback⟩
    refine ⟨back.reverse, front.reverse, by simp, fun e he => ?_⟩
    exact bne_iff_ne.2 (Ne.symm (hback e (List.mem_reverse.1 he)))

theorem entry_eq_iff {a : RawAttribute} {key value : String} :
    a.entry = (key, value) ↔ foldChars a.key = key.toList ∧ Denotes a.value value.toList := by
  rw [RawAttribute.entry, Prod.mk.injEq, denotes_iff, ← String.toList_inj, ← String.toList_inj, String.toList_ofList,
    String.toList_ofList]

/-- The attributes of an element have the last value of each key, and no others. -/
theorem get?_ofList_entries_iff {as : List RawAttribute} {key value : String} :
    (Attributes.ofList (as.map RawAttribute.entry)).get? key = some value ↔ IsLastValue as key value := by
  rw [get?_ofList_eq_some_iff]
  constructor
  · rintro ⟨front, back, has, hback⟩
    obtain ⟨front, rest, rfl, rfl, hrest⟩ := List.map_eq_append_iff.1 has
    obtain ⟨a, back, rfl, ha, rfl⟩ := List.map_eq_cons_iff.1 hrest
    obtain ⟨hk, hv⟩ := entry_eq_iff.1 ha
    refine ⟨front, a, back, rfl, hk, hv, fun b hb he => ?_⟩
    exact hback _ (List.mem_map_of_mem hb) (by rw [RawAttribute.entry, he, String.ofList_toList])
  · rintro ⟨front, a, back, rfl, hk, hv, hback⟩
    refine ⟨front.map RawAttribute.entry, back.map RawAttribute.entry, ?_, fun e he => ?_⟩
    · rw [List.map_append, List.map_cons, entry_eq_iff.2 ⟨hk, hv⟩]
    · obtain ⟨b, hb, rfl⟩ := List.mem_map.1 he
      intro hkey
      exact hback b hb (by rw [← hkey, RawAttribute.entry, String.toList_ofList])

theorem exists_get?_ofList {es : List (String × String)} {e : String × String} (he : e ∈ es) :
    ∃ value, (Attributes.ofList es).get? e.1 = some value := by
  rw [← Option.ne_none_iff_exists', Attributes.get?_ofList, Ne, List.lookup_eq_none_iff]
  intro hnone
  exact bne_iff_ne.1 (hnone e (List.mem_reverse.2 he)) rfl

section

variable {name closing content gap : List Char} {as : List RawAttribute}

theorem caseBlind_isNameSign : CaseBlind isNameSign :=
  caseBlind_of_capitals (by decide +kernel)

/-- A name is one in any letter case. -/
theorem IsWrittenName.of_foldChars (h : IsWrittenName name) (hc : foldChars closing = foldChars name) :
    IsWrittenName closing where
  ne_nil := by
    rintro rfl
    exact h.ne_nil (List.map_eq_nil_iff.1 hc.symm)
  signs := by
    intro c hmem
    have hfold : c.toLower ∈ foldChars name := hc ▸ List.mem_map_of_mem hmem
    obtain ⟨d, hd, he⟩ := List.mem_map.1 hfold
    rw [← caseBlind_isNameSign.eq he]
    exact h.signs d hd

/-- An element that is closed where it opens, be it one without an inside or not. -/
theorem feedAll_closed (name : String) (attributes : Attributes) :
    feedAll {} [.opening name attributes, .closing name] = .ok { roots := [⟨name, attributes, []⟩] } := by
  rw [feedAll_cons]
  cases hvoid : isVoid name with
  | true =>
    have hopen : ({} : Growth).feed (.opening name attributes) = .ok { roots := [⟨name, attributes, []⟩] } := if_pos hvoid
    have hclose : ({ roots := [⟨name, attributes, []⟩] } : Growth).feed (.closing name) =
        .ok { roots := [⟨name, attributes, []⟩] } := if_pos hvoid
    rw [hopen, Except.bind, feedAll_cons, hclose]
    rfl
  | false =>
    have hvoid : ¬isVoid name = true := by simp [hvoid]
    have hopen : ({} : Growth).feed (.opening name attributes) = .ok { stack := [⟨name, attributes, []⟩] } :=
      if_neg hvoid
    have hclose : ({ stack := [⟨name, attributes, []⟩] } : Growth).feed (.closing name) =
        .ok { roots := [⟨name, attributes, []⟩] } := (if_neg hvoid).trans (if_pos rfl)
    rw [hopen, Except.bind, feedAll_cons, hclose]
    rfl

/-- A tag with quoted attributes that is closed at once is one element, whatever the values are: its attributes have,
for each key in lower case, the value of the last attribute with this key, decoded where every ampersand begins a
reference and as it is written where one does not. -/
theorem parse_closed_tag (h : ContentForm name as content) (hc : foldChars closing = foldChars name) (hg : Gap gap) :
    ∃ root, parse (String.ofList ('<' :: (content ++ ['>']) ++ '<' :: '/' :: (closing ++ gap ++ ['>']))) = .ok [root] ∧
      root.name.toList = foldChars name ∧ root.children = [] ∧
      (∀ a ∈ as, ∃ value, root.attribute? (String.ofList (foldChars a.key)) = some value) ∧
      ∀ key value, root.attribute? key = some value ↔ IsLastValue as key value := by
  have hname : IsWrittenName name := by
    obtain ⟨_, _, _, hname, _, _⟩ := h
    exact hname
  have hread := (readsAs_opening h).append (readsAs_closing (hname.of_foldChars hc) hg)
  rw [hc] at hread
  refine ⟨⟨String.ofList (foldChars name), .ofList (as.map RawAttribute.entry), []⟩, ?_, String.toList_ofList, rfl,
    fun a ha => exists_get?_ofList (List.mem_map_of_mem ha), fun key value => get?_ofList_entries_iff⟩
  unfold parse
  rw [hread.events, List.singleton_append, feedAll_closed]
  rfl

end

/-- A key that is written in two letter cases and two kinds of quotes, the second time with an ampersand that begins
no reference, on a tag whose element has no inside. -/
theorem parse_closed_tag_twice :
    let as : List RawAttribute := [⟨['h'], "<a b=1> &lt;\n".toList⟩, ⟨"x:y-1".toList, "&lt;&#x3E;&#062;\x22".toList⟩,
      ⟨['H'], "it's R&D, R&amp;D".toList⟩]
    let content := "cfArgument h='<a b=1> &lt;\n'\tx:y-1='&lt;&#x3E;&#062;\x22' H=\x22it's R&D, R&amp;D\x22 ".toList
    let text := '<' :: (content ++ ['>']) ++ '<' :: '/' :: ("CFargument".toList ++ ['\n'] ++ ['>'])
    ContentForm "cfArgument".toList as content ∧ foldChars "CFargument".toList = foldChars "cfArgument".toList ∧
      Gap ['\n'] ∧ ∃ root, parse (String.ofList text) = .ok [root] ∧
        root.attribute? "h" = some "it's R&D, R&amp;D" ∧ root.attribute? "x:y-1" = some "<>>\x22" := by
  intro as content text
  have hname : IsWrittenName "cfArgument".toList := ⟨by decide +kernel, List.all_eq_true.1 (by decide +kernel)⟩
  have hkey : IsWrittenName "x:y-1".toList := ⟨by decide, List.all_eq_true.1 (by decide)⟩
  have hattributes : AttributesForm as
      ([' '] ++ ['h'] ++ '=' :: '\x27' :: ("<a b=1> &lt;\n".toList ++ '\x27' ::
        (['\t'] ++ "x:y-1".toList ++ '=' :: '\x27' :: ("&lt;&#x3E;&#062;\x22".toList ++ '\x27' ::
          ([' '] ++ ['H'] ++ '=' :: '\x22' :: ("it's R&D, R&amp;D".toList ++ '\x22' :: [])))))) :=
    .cons (by simp) (gap_nil.cons rfl) ⟨by simp, List.all_eq_true.1 (by decide)⟩ (.inr rfl) (by decide +kernel)
      (.cons (by simp) (gap_nil.cons rfl) hkey (.inr rfl) (by decide +kernel)
        (.cons (by simp) (gap_nil.cons rfl) ⟨by simp, List.all_eq_true.1 (by decide)⟩ (.inl rfl) (by decide +kernel)
          .nil))
  have hcontent : ContentForm "cfArgument".toList as content :=
    ⟨_, [' '], by decide +kernel, hname, hattributes, gap_nil.cons rfl⟩
  have hgap : Gap ['\n'] := gap_nil.cons rfl
  have hclosing : foldChars "CFargument".toList = foldChars "cfArgument".toList := by decide +kernel
  obtain ⟨root, hparse, -, -, -, hvalues⟩ := parse_closed_tag hcontent hclosing hgap
  refine ⟨hcontent, hclosing, hgap, root, hparse, (hvalues _ _).2 ?_, (hvalues _ _).2 ?_⟩
  · exact ⟨as.take 2, _, [], rfl, by decide +kernel, denotes_iff.2 (by decide +kernel), by simp⟩
  · exact ⟨as.take 1, _, as.drop 2, rfl, by decide +kernel, denotes_iff.2 (by decide +kernel), by decide +kernel⟩

end ResourceClient.Markup
