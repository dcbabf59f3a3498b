/-
The call parameters of an interface: one for each path parameter, told apart by ordinals, and each of them with the
shape of an identifier, so that the commas and brackets around them are those of the parameter list. The first path
parameter that makes a name has the call parameter of that name, and each later one gets the least ordinal that makes
of it neither the name of a path parameter nor that of a call parameter before it.
-/
import Mathlib.Data.List.Nodup
import Mathlib.Order.Bounds.Basic
import ResourceClient.TypeScript.Declaration

namespace ResourceClient.TypeScript

variable {bases before names taken emitted rest : List String} {base name : String} {i j : Nat}

/-! ## Shapes -/

theorem isNameChar_of_isNameStart {c : Char} (h : isNameStart c = true) : isNameChar c = true := by
  simp only [isNameStart, Bool.or_eq_true] at h
  rcases h with (h | h) | h <;> simp [isNameChar, Char.isAlphanum, h]

theorem all_of_isShaped {cs : List Char} (h : isShaped cs = true) : cs.all isNameChar = true := by
  cases cs with
  | nil => cases h
  | cons c cs =>
    rw [isShaped, Bool.and_eq_true] at h
    rw [List.all_cons, isNameChar_of_isNameStart h.1, h.2]
    rfl

theorem isShaped_append {cs more : List Char} (h : isShaped cs = true) (hm : more.all isNameChar = true) :
    isShaped (cs ++ more) = true := by
  cases cs with
  | nil => cases h
  | cons c cs =>
    rw [List.cons_append, isShaped, Bool.and_eq_true] at *
    exact ⟨h.1, by rw [List.all_append, h.2, hm]; rfl⟩

theorem isShaped_shape (cs : List Char) : isShaped (shape cs) = true := by
  have hall : (cs.map fun c => if isNameChar c then c else '_').all isNameChar = true := by
    rw [List.all_eq_true]
    intro c hc
    obtain ⟨d, -, rfl⟩ := List.mem_map.1 hc
    by_cases hd : isNameChar d = true
    · rw [if_pos hd, hd]
    · rw [if_neg hd]
      decide
  unfold shape
  split
  · decide
  · rename_i c more hc
    rw [hc, List.all_cons, Bool.and_eq_true] at hall
    -- a digit gets an underscore in front, and any other name character may stand first
    by_cases hd : c.isDigit = true
    · rw [if_pos hd, isShaped, List.all_cons, hall.1, hall.2]
      decide
    · rw [if_neg hd, isShaped, hall.2]
      simpa [isNameStart, isNameChar, Char.isAlphanum, hd] using hall.1

theorem isShaped_sanitize (s : String) : isShaped (sanitize s).toList = true := by
  unfold sanitize avoid
  split
  · rw [String.toList_append, String.toList_ofList]
    exact isShaped_append (isShaped_shape _) (by decide)
  · rw [String.toList_ofList]
    exact isShaped_shape _

theorem isDigit_of_mem_decimal {n : Nat} {c : Char} (h : c ∈ (Text.decimal n).toList) : c.isDigit = true := by
  rw [Text.decimal, String.toList_ofList] at h
  exact Nat.isDigit_of_mem_toDigits (by omega) (by omega) h

theorem all_decimal (n : Nat) : (Text.decimal n).toList.all isNameChar = true := by
  rw [List.all_eq_true]
  intro c hc
  simp [isNameChar, Char.isAlphanum, isDigit_of_mem_decimal hc]

/-! ## Ordinals -/

theorem decimal_injective : Function.Injective Text.decimal := by
  intro m n h
  have hdigits : Nat.toDigits 10 m = Nat.toDigits 10 n := String.ofList_injective h
  calc m = Nat.ofDigitChars 10 (Nat.toDigits 10 m) 0 := (Nat.ofDigitChars_toDigits (by decide) (by decide)).symm
    _ = Nat.ofDigitChars 10 (Nat.toDigits 10 n) 0 := by rw [hdigits]
    _ = n := Nat.ofDigitChars_toDigits (by decide) (by decide)

/-- There are more ordinals than names taken. -/
theorem exists_ordinal (base : String) (taken : List String) :
    ∃ i ∈ List.range (taken.length + 1), base ++ Text.decimal (i + 2) ∉ taken := by
  by_contra hall
  push Not at hall
  have hinj : Function.Injective fun i => base ++ Text.decimal (i + 2) := fun i j h =>
    Nat.add_right_cancel (decimal_injective ((String.append_right_inj base).1 h))
  have hnodup := (List.nodup_range (n := taken.length + 1)).map hinj
  have hsub : (List.range (taken.length + 1)).map (fun i => base ++ Text.decimal (i + 2)) ⊆ taken := by
    intro name hname
    obtain ⟨i, hi, rfl⟩ := List.mem_map.1 hname
    exact hall i hi
  have hle := hnodup.length_le_of_subset hsub
  rw [List.length_map, List.length_range] at hle
  omega

/-- The search for an ordinal ends at the least one that makes a name not taken. -/
theorem isLeast_ordinal (base : String) (taken : List String) :
    IsLeast {k | 2 ≤ k ∧ base ++ Text.decimal k ∉ taken} (ordinal base taken) := by
  obtain ⟨i, hi, hfree⟩ := exists_ordinal base taken
  have hsome : ((List.range (taken.length + 1)).find? fun i => !taken.contains (base ++ Text.decimal (i + 2))).isSome =
      true := List.find?_isSome.2 ⟨i, hi, by simpa using hfree⟩
  obtain ⟨k, hk⟩ := Option.isSome_iff_exists.1 hsome
  have hordinal : ordinal base taken = k + 2 := by rw [ordinal, hk]; rfl
  obtain ⟨hfree, -, hleast⟩ := List.find?_range_eq_some.1 hk
  rw [hordinal]
  refine ⟨⟨by omega, by simpa using hfree⟩, fun n ⟨hn, hfree⟩ => ?_⟩
  by_contra hlt
  -- an ordinal below would have been found before
  have htaken := hleast (n - 2) (by omega)
  rw [Nat.sub_add_cancel hn] at htaken
  exact hfree (by simpa using htaken)

/-! ## Names told apart -/

/-- The names given to the first path parameters. `bases` are the names that all of them make, and `before` those
that the first make: one that is new is kept, and any other gets the least ordinal that makes of it neither one of
`bases` nor a name given before. -/
structure Numbered (bases before names : List String) : Prop where
  length : names.length = before.length
  first : ∀ i base, before[i]? = some base → base ∉ before.take i → names[i]? = some base
  later : ∀ i base, before[i]? = some base → base ∈ before.take i → ∃ k,
    IsLeast {k | 2 ≤ k ∧ base ++ Text.decimal k ∉ bases ∧ base ++ Text.decimal k ∉ names.take i} k ∧
      names[i]? = some (base ++ Text.decimal k)

theorem mem_take_of_getElem? (h : names[i]? = some name) (hij : i < j) : name ∈ names.take j :=
  List.mem_of_getElem? (by rw [List.getElem?_take_of_lt hij, h])

/-- A name given is that of its path parameter or has an ordinal. -/
theorem Numbered.cases_at (h : Numbered bases before names) (hi : names[i]? = some name) :
    ∃ base, before[i]? = some base ∧ ((base ∉ before.take i ∧ name = base) ∨
      ∃ k, name = base ++ Text.decimal k ∧ name ∉ bases ∧ name ∉ names.take i) := by
  have hlt : i < before.length := by
    rw [← h.length]
    exact (List.getElem?_eq_some_iff.1 hi).1
  have hbase : before[i]? = some before[i] := List.getElem?_eq_getElem hlt
  refine ⟨before[i], hbase, ?_⟩
  by_cases hmem : before[i] ∈ before.take i
  · obtain ⟨k, hk, hname⟩ := h.later i _ hbase hmem
    obtain rfl := Option.some.inj (hi.symm.trans hname)
    exact .inr ⟨k, rfl, hk.1.2⟩
  · exact .inl ⟨hmem, Option.some.inj (hi.symm.trans (h.first i _ hbase hmem))⟩

/-- Of the names that path parameters make, those given are the ones of the path parameters so far. -/
theorem Numbered.mem_iff (h : Numbered bases before names) (hb : base ∈ bases) : base ∈ names ↔ base ∈ before := by
  constructor
  · intro hmem
    obtain ⟨i, hi⟩ := List.mem_iff_getElem?.1 hmem
    obtain ⟨own, hown, ⟨-, rfl⟩ | ⟨k, -, hnew, -⟩⟩ := h.cases_at hi
    · exact List.mem_of_getElem? hown
    · exact absurd hb hnew
  · intro hmem
    obtain ⟨a, b, rfl, ha⟩ := List.eq_append_cons_of_mem hmem
    exact List.mem_of_getElem? (h.first a.length base (by simp) (by simpa using ha))

theorem Numbered.nodup (h : Numbered bases before names) (hsub : before ⊆ bases) : names.Nodup := by
  rw [List.nodup_iff_getElem?_ne_getElem?]
  intro i j hij hj he
  have hj := List.getElem?_eq_getElem hj
  have hi := he.trans hj
  obtain ⟨own, hown, ⟨hnew, hname⟩ | ⟨k, -, -, hnew⟩⟩ := h.cases_at hj
  · obtain ⟨other, hother, ⟨-, hsame⟩ | ⟨k, -, hnot, -⟩⟩ := h.cases_at hi
    · exact hnew (hname ▸ hsame ▸ mem_take_of_getElem? hother hij)
    · exact hnot (hname ▸ hsub (List.mem_of_getElem? hown))
  · exact hnew (mem_take_of_getElem? hi hij)

theorem cases_of_getElem?_concat {a b : String} (h : (before ++ [b])[i]? = some a) :
    (i < before.length ∧ before[i]? = some a) ∨ (i = before.length ∧ a = b) := by
  rcases Nat.lt_or_ge i before.length with hlt | hge
  · rw [List.getElem?_append_left hlt] at h
    exact .inl ⟨hlt, h⟩
  · obtain ⟨hlt, ha⟩ := List.getElem?_eq_some_iff.1 h
    obtain rfl : i = before.length := by
      simp only [List.length_append, List.length_singleton] at hlt
      omega
    exact .inr ⟨rfl, by simpa using ha.symm⟩

/-- One more path parameter is given its name. -/
theorem Numbered.concat (h : Numbered bases before names) (hfirst : base ∉ before → name = base)
    (hlater : base ∈ before → ∃ k,
      IsLeast {k | 2 ≤ k ∧ base ++ Text.decimal k ∉ bases ∧ base ++ Text.decimal k ∉ names} k ∧
        name = base ++ Text.decimal k) :
    Numbered bases (before ++ [base]) (names ++ [name]) := by
  refine ⟨by simp [h.length], fun i own hi hnew => ?_, fun i own hi hold => ?_⟩
  · rcases cases_of_getElem?_concat hi with ⟨hlt, hi⟩ | ⟨rfl, rfl⟩
    · rw [List.take_append_of_le_length (Nat.le_of_lt hlt)] at hnew
      rw [List.getElem?_append_left (h.length ▸ hlt)]
      exact h.first i own hi hnew
    · rw [List.take_left] at hnew
      rw [← h.length, List.getElem?_concat_length, hfirst hnew]
  · rcases cases_of_getElem?_concat hi with ⟨hlt, hi⟩ | ⟨rfl, rfl⟩
    · rw [List.take_append_of_le_length (Nat.le_of_lt hlt)] at hold
      have hlt : i < names.length := h.length ▸ hlt
      rw [List.getElem?_append_left hlt, List.take_append_of_le_length (Nat.le_of_lt hlt)]
      exact h.later i own hi hold
    · rw [List.take_left] at hold
      obtain ⟨k, hk, rfl⟩ := hlater hold
      rw [← h.length, List.take_left, List.getElem?_concat_length]
      exact ⟨k, hk, rfl⟩

/-- What is looked up while names are given: all names that path parameters make are taken from the start, and a name
with an ordinal is taken once it is given. -/
structure Recorded (bases names taken emitted : List String) : Prop where
  taken : ∀ n, n ∈ taken ↔ n ∈ bases ∨ n ∈ names
  emitted : ∀ n, n ∈ emitted ↔ n ∈ names

theorem Recorded.keep (h : Recorded bases names taken emitted) (hbase : base ∈ bases) :
    Recorded bases (names ++ [base]) taken (base :: emitted) where
  taken n := by
    rw [h.taken, List.mem_append, List.mem_singleton]
    constructor
    · tauto
    · rintro (hn | hn | rfl)
      · exact .inl hn
      · exact .inr hn
      · exact .inl hbase
  emitted n := by rw [List.mem_cons, h.emitted, List.mem_append, List.mem_singleton, or_comm]

theorem Recorded.number (h : Recorded bases names taken emitted) (name : String) :
    Recorded bases (names ++ [name]) (name :: taken) (name :: emitted) where
  taken n := by
    rw [List.mem_cons, h.taken, List.mem_append, List.mem_singleton]
    tauto
  emitted n := by rw [List.mem_cons, h.emitted, List.mem_append, List.mem_singleton, or_comm]

theorem numbered_distinguish (h : Numbered bases before names) (hr : Recorded bases names taken emitted)
    (hbases : bases = before ++ rest) : Numbered bases bases (names ++ distinguish taken emitted rest) := by
  induction rest generalizing before names taken emitted with
  | nil =>
    rw [List.append_nil] at hbases
    rw [distinguish, List.append_nil]
    exact hbases ▸ h
  | cons base rest ih =>
    have hbase : base ∈ bases := by simp [hbases]
    have hmore : bases = (before ++ [base]) ++ rest := by simp [hbases]
    -- no name with an ordinal is that of a path parameter, so those given tell which were read
    have hseen : emitted.contains base = true ↔ base ∈ before := by
      rw [List.contains_iff_mem, hr.emitted, h.mem_iff hbase]
    unfold distinguish
    split
    · rename_i hold
      have hleast := isLeast_ordinal base taken
      simp only [hr.taken, not_or] at hleast
      have hstep := h.concat (fun hnew => absurd (hseen.1 hold) hnew) fun _ => ⟨_, hleast, rfl⟩
      rw [List.append_cons]
      exact ih hstep (hr.number _) hmore
    · rename_i hnew
      have hstep := h.concat (fun _ => rfl) fun hold => absurd (hseen.2 hold) hnew
      rw [List.append_cons]
      exact ih hstep (hr.keep hbase) hmore

theorem numbered_callParameters (parameters : List String) :
    Numbered (parameters.map sanitize) (parameters.map sanitize) (callParameters parameters) := by
  have hnil : Numbered (parameters.map sanitize) [] [] := ⟨rfl, by simp, by simp⟩
  exact numbered_distinguish hnil ⟨by simp, by simp⟩ rfl

/-- What holds of the names that path parameters make, and stays with an ordinal, holds of the names given. -/
theorem Numbered.forall_mem {good : String → Prop} (h : Numbered bases before names)
    (hbefore : ∀ base ∈ before, good base) (hordinal : ∀ base k, good base → good (base ++ Text.decimal k)) :
    ∀ name ∈ names, good name := by
  intro name hmem
  obtain ⟨i, hat⟩ := List.mem_iff_getElem?.1 hmem
  obtain ⟨base, hbase, ⟨-, rfl⟩ | ⟨k, rfl, -⟩⟩ := h.cases_at hat
  · exact hbefore _ (List.mem_of_getElem? hbase)
  · exact hordinal _ k (hbefore _ (List.mem_of_getElem? hbase))

/-- There is one call parameter for each path parameter. -/
theorem length_callParameters (parameters : List String) :
    (callParameters parameters).length = parameters.length := by
  rw [(numbered_callParameters parameters).length, List.length_map]

theorem isShaped_callParameters (parameters : List String) :
    ∀ p ∈ callParameters parameters, isShaped p.toList = true := by
  refine (numbered_callParameters parameters).forall_mem (fun base hbase => ?_) fun base k h => ?_
  · obtain ⟨s, -, rfl⟩ := List.mem_map.1 hbase
    exact isShaped_sanitize s
  · rw [String.toList_append]
    exact isShaped_append h (all_decimal k)

end ResourceClient.TypeScript
