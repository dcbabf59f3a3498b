/-
Templates whose placeholders stand anywhere. Only a placeholder that opens its segment is a parameter, but
each of them is a slot, so the arguments for the parameters fill the URL exactly when every placeholder opens
its segment. Otherwise slots are left over, and the arguments slip into the places of others.
-/
import ResourceClient.Proofs.TypeScript.Parameters
import ResourceClient.Proofs.Uri.Clean
import ResourceClient.Resource
import Mathlib.Data.List.Induction

namespace ResourceClient.Template

open Text

variable {parts : List (List Char × List Char)} {gap name tail : List Char}

/-! ## Placeholders in any places -/

theorem Woven.of_concat (h : Woven (parts ++ [(gap, name)]) tail) :
    Woven parts gap ∧ IsName name ∧ BraceFree tail := by
  have hlast : (gap, name) ∈ parts ++ [(gap, name)] := List.mem_append_right _ List.mem_cons_self
  refine ⟨⟨fun p hp => ?_, fun p hp => ?_, h.gaps _ hlast⟩, h.names _ hlast, h.tail⟩
  · exact h.gaps p (List.mem_append_left _ hp)
  · exact h.names p (List.mem_append_left _ hp)

theorem Woven.placed (h : Woven parts tail) : Placed (weave parts tail) (parts.map (·.2)) := by
  induction parts using List.reverseRecOn generalizing tail with
  | nil => exact .text h.tail
  | append_singleton parts part ih =>
    obtain ⟨gap, name⟩ := part
    obtain ⟨hpre, hn, ht⟩ := h.of_concat
    have hassoc : weave parts gap ++ '{' :: (name ++ '}' :: tail) =
        weave parts gap ++ ('{' :: name ++ ['}'] ++ tail) := by simp
    rw [weave_concat, hassoc, List.map_append]
    exact .slot (ih hpre) (.plain hn) ht

/-- A brace opens behind a text in which none opens. -/
theorem append_eq_of_not_mem {cs rest a b : List Char} (h : '{' ∉ cs) (he : cs ++ rest = a ++ '{' :: b) :
    ∃ more, rest = more ++ '{' :: b := by
  rcases List.append_eq_append_iff.1 he with ⟨more, -, hr⟩ | ⟨more, hc, hr⟩
  · exact ⟨more, hr⟩
  · cases more with
    | nil => exact ⟨[], by simpa using hr.symm⟩
    | cons c more =>
      -- the brace would stand in the text
      cases hr
      exact absurd (by simp [hc]) h

/-- Every brace that opens is that of a slot. -/
theorem Woven.startsSlot (h : Woven parts tail) {a b : List Char} (he : weave parts tail = a ++ '{' :: b) :
    StartsSlot ('{' :: b) := by
  induction parts generalizing a with
  | nil =>
    have hm : '{' ∈ tail := by
      rw [weave_nil] at he
      simp [he]
    exact absurd hm h.tail.not_mem
  | cons part parts ih =>
    obtain ⟨gap, name⟩ := part
    obtain ⟨hg, hn, h⟩ := h.of_cons
    rw [weave_cons] at he
    obtain ⟨more, hr⟩ := append_eq_of_not_mem hg.not_mem he
    cases more with
    | nil =>
      cases hr
      exact ⟨name, _, hn, rfl⟩
    | cons c more =>
      obtain ⟨-, hr⟩ := List.cons.inj hr
      obtain ⟨more, hr⟩ := append_eq_of_not_mem hn.braceFree.not_mem hr
      cases more with
      | nil => cases hr
      | cons c more => exact ih h (List.cons.inj hr).2

/-! ## The parameters -/

/-- Reading behind the last slash of a text: what stands before it gives its names whatever follows. -/
theorem exists_last_segment (cs : List Char) : ∃ b, '/' ∉ b ∧ (∃ a, cs = a ++ b) ∧ (Opens cs ↔ Blank b) ∧
    ∃ names, ∀ more, parametersOf (cs ++ more) = names ++ parametersOf (b ++ more) := by
  by_cases h : '/' ∈ cs
  · obtain ⟨x, y, hxy, hx⟩ := List.eq_append_cons_of_mem (List.mem_reverse.2 h)
    have hcs : cs = y.reverse ++ '/' :: x.reverse := by
      have := congrArg List.reverse hxy
      simpa using this
    have hx : '/' ∉ x.reverse := by simpa using hx
    refine ⟨x.reverse, hx, ⟨y.reverse ++ ['/'], by simp [hcs]⟩, ⟨fun ho => ?_, fun hb => .inr ⟨_, _, hcs, hb⟩⟩,
      parametersOf y.reverse, fun more => ?_⟩
    · rcases ho with hb | ⟨a, b, hab, hb⟩
      · exact absurd h (Blank.not_mem hb (by decide))
      · -- both cut the text at its last slash
        have hb' : '/' ∉ b := Blank.not_mem hb (by decide)
        rw [hcs] at hab
        rcases List.append_eq_append_iff.1 hab with ⟨m, -, hm⟩ | ⟨m, -, hm⟩
        · cases m with
          | nil => simpa [(List.cons.inj hm).2] using hb
          | cons c m => exact absurd (show '/' ∈ x.reverse by simp [(List.cons.inj hm).2]) hx
        · cases m with
          | nil => simpa [(List.cons.inj hm).2] using hb
          | cons c m => exact absurd (show '/' ∈ b by simp [(List.cons.inj hm).2]) hb'
    · rw [hcs, List.append_assoc, List.cons_append, parametersOf_append_slash]
  · refine ⟨cs, h, ⟨[], rfl⟩, ⟨fun ho => ?_, .inl⟩, [], fun more => rfl⟩
    rcases ho with hb | ⟨a, b, rfl, -⟩
    · exact hb
    · exact absurd (by simp) h

theorem exists_not_blank {cs : List Char} (h : ¬Blank cs) :
    ∃ before c after, cs = before ++ c :: after ∧ Blank before ∧ isBlank c = false := by
  obtain ⟨c, hc, hn⟩ : ∃ c ∈ cs, ¬isBlank c = true := by
    simpa [Blank] using h
  obtain ⟨d, after, hd⟩ : ∃ d after, cs.dropWhile isBlank = d :: after := by
    refine List.exists_cons_of_ne_nil fun hnil => hn ?_
    exact List.dropWhile_eq_nil_iff.1 hnil c hc
  refine ⟨cs.takeWhile isBlank, d, after, ?_, fun x hx => List.mem_takeWhile_imp hx, ?_⟩
  · rw [← hd, List.takeWhile_append_dropWhile]
  · have := List.head_dropWhile_not isBlank (l := cs) (by simp [hd])
    simpa [hd] using this

/-- What follows a segment that has begun does not change its parameter: the first placeholder is closed
already, or something else stands before it. -/
theorem segmentParameter?_append {segment : List Char} (hb : ¬Blank segment)
    (hs : ∀ a b, segment = a ++ '{' :: b → StartsSlot ('{' :: b)) (more : List Char) :
    segmentParameter? (segment ++ more) = segmentParameter? segment := by
  obtain ⟨before, c, after, rfl, hblank, hc⟩ := exists_not_blank hb
  by_cases hopen : c = '{'
  · subst hopen
    obtain ⟨name, rest, hn, he⟩ := hs before after rfl
    cases he
    have hone : ∀ rest, segmentParameter? (before ++ '{' :: (name ++ '}' :: rest)) = some (String.ofList name) := by
      intro rest
      have hsome : segmentParameter? (before ++ '{' :: name ++ '}' :: rest) = some (String.ofList (trim name)) :=
        segmentParameter?_eq_some hblank hn.not_mark (.inl rfl) (by rw [hn.trim_eq]; exact hn.1)
      rw [hn.trim_eq] at hsome
      simpa using hsome
    have hassoc : before ++ '{' :: (name ++ '}' :: rest) ++ more = before ++ '{' :: (name ++ '}' :: (rest ++ more)) := by
      simp
    rw [hassoc, hone, hone]
  · have hnone : ∀ rest, segmentParameter? (before ++ c :: rest) = none := by
      intro rest
      unfold segmentParameter?
      rw [trim_append_cons hc, List.dropWhile_eq_nil_iff.2 hblank, List.nil_append]
      split
      · rename_i inner hi
        exact absurd (List.cons.inj hi).1 hopen
      · rfl
    rw [List.append_assoc, List.cons_append, hnone, hnone]

/-- The last placeholder is one more parameter if it opens its segment, and none otherwise. -/
theorem parametersOf_concat (h : Woven (parts ++ [(gap, name)]) tail) :
    (Opens (weave parts gap) → parametersOf (weave (parts ++ [(gap, name)]) tail) =
      parametersOf (weave parts gap) ++ [String.ofList name]) ∧
    (¬Opens (weave parts gap) → parametersOf (weave (parts ++ [(gap, name)]) tail) =
      parametersOf (weave parts gap)) := by
  obtain ⟨hpre, hn, ht⟩ := h.of_concat
  obtain ⟨b, hb, ⟨a, hab⟩, hopens, names, hnames⟩ := exists_last_segment (weave parts gap)
  have hbefore : parametersOf (weave parts gap) = names ++ parametersOf b := by
    simpa using hnames []
  rw [weave_concat, hnames, hbefore, hopens]
  constructor
  · intro hblank
    have hp := parametersOf_placeholder hblank hn.1 (.plain hn) ht
    rw [parametersOf_of_not_mem (Blank.not_mem hblank (by decide)), List.append_nil]
    simpa using hp
  · intro hblank
    have hslash : '/' ∉ b ++ '{' :: name ++ ['}'] := by
      simp [hb, hn.slash_not_mem]
    obtain ⟨r, hr⟩ := exists_segment hslash ht.not_mem
    have hclosed : ∀ x y, b = x ++ '{' :: y → StartsSlot ('{' :: y) := fun x y he =>
      hpre.startsSlot (a := a ++ x) (by rw [hab, he, List.append_assoc])
    have hsegment := segmentParameter?_append hblank hclosed ('{' :: name ++ ['}'] ++ r)
    have hassoc : b ++ '{' :: (name ++ '}' :: tail) = b ++ '{' :: name ++ ['}'] ++ tail := by simp
    have hback : b ++ '{' :: name ++ ['}'] ++ r = b ++ ('{' :: name ++ ['}'] ++ r) := by simp
    rw [hassoc, hr, hback, hsegment, parametersOf_segment hb]

/-- Every placeholder opens its segment. -/
def AllOpen (parts : List (List Char × List Char)) : Prop :=
  ∀ before gap name after, parts = before ++ (gap, name) :: after → Opens (weave before gap)

theorem allOpen_concat : AllOpen (parts ++ [(gap, name)]) ↔ AllOpen parts ∧ Opens (weave parts gap) := by
  constructor
  · intro h
    refine ⟨fun before g n after he => h before g n (after ++ [(gap, name)]) ?_, h parts gap name [] rfl⟩
    rw [he, List.append_assoc, List.cons_append]
  · rintro ⟨h, ho⟩ before g n after he
    rcases List.eq_nil_or_concat after with rfl | ⟨after, last, rfl⟩
    · obtain ⟨rfl, hlast⟩ := List.append_inj' he rfl
      cases hlast
      exact ho
    · refine h before g n after ?_
      have he : parts ++ [(gap, name)] = (before ++ (g, n) :: after) ++ [last] := by simpa using he
      exact (List.append_inj' he rfl).1

/-- The parameters are the names of the placeholders if these all open their segments, and fewer
otherwise. -/
theorem parametersOf_weave (h : Woven parts tail) :
    (AllOpen parts → parametersOf (weave parts tail) = parts.map fun part => String.ofList part.2) ∧
    (¬AllOpen parts → (parametersOf (weave parts tail)).length < parts.length) := by
  induction parts using List.reverseRecOn generalizing tail with
  | nil =>
    refine ⟨fun _ => parametersOf_of_not_mem h.tail.not_mem, fun hn => absurd ?_ hn⟩
    intro before gap name after he
    simp at he
  | append_singleton parts part ih =>
    obtain ⟨gap, name⟩ := part
    obtain ⟨hpre, -, -⟩ := h.of_concat
    obtain ⟨hopen, hshut⟩ := parametersOf_concat h
    obtain ⟨hall, hsome⟩ := ih hpre
    rw [allOpen_concat, List.length_append, List.length_singleton]
    constructor
    · rintro ⟨ha, ho⟩
      rw [hopen ho, hall ha, List.map_append]
      rfl
    · intro hn
      by_cases ho : Opens (weave parts gap)
      · have ha : ¬AllOpen parts := fun ha => hn ⟨ha, ho⟩
        rw [hopen ho, List.length_append, List.length_singleton]
        exact Nat.succ_lt_succ (hsome ha)
      · rw [hshut ho]
        by_cases ha : AllOpen parts
        · rw [hall ha, List.length_map]
          exact Nat.lt_succ_self _
        · exact Nat.lt_succ_of_lt (hsome ha)

/-! ## The URL -/

/-- Whether a match of the pattern of slots stands in a text. -/
def HasSlot (cs : List Char) : Prop :=
  ∃ a b, cs = a ++ b ∧ StartsSlot b

theorem BraceFree.not_hasSlot {cs : List Char} (h : BraceFree cs) : ¬HasSlot cs := by
  rintro ⟨a, b, rfl, name, more, -, rfl⟩
  exact absurd (h '{' (by simp)) (by decide)

theorem hasSlot_append_weave (text tail : List Char) (parts : List (List Char × List Char))
    (hn : IsName name) : HasSlot (text ++ weave ((gap, name) :: parts) tail) :=
  ⟨text ++ gap, _, by rw [weave_cons, List.append_assoc], name, _, hn, rfl⟩

theorem braceFree_flatten {args : List (List Char)} (hg : ∀ part ∈ parts, BraceFree part.1)
    (ha : ∀ arg ∈ args, BraceFree arg) :
    BraceFree (List.zipWith (fun part arg => part.1 ++ arg) parts args).flatten := by
  intro c hc
  obtain ⟨piece, hp, hc⟩ := List.mem_flatten.1 hc
  obtain ⟨i, hi, rfl⟩ := List.mem_iff_getElem.1 hp
  rw [List.getElem_zipWith] at hc
  rcases List.mem_append.1 hc with hc | hc
  · exact hg _ (List.getElem_mem _) c hc
  · exact ha _ (List.getElem_mem _) c hc

/-- With one argument without braces for each parameter, the URL is filled iff every placeholder opens its
segment, and then each argument stands in the place of the placeholder whose name is the parameter at its
position. -/
theorem bind_fills_iff (h : Woven parts tail) {template : String} (ht : template.toList = weave parts tail)
    (endpointName : String) (operations : List Operation) {args : List String}
    (hb : ∀ arg ∈ args, BraceFree arg.toList) (hlen : args.length = (parameters template).length) :
    (TypeScript.callParameters (parameters template)).length = args.length ∧
    let url := ((ResourceFactory.ofEndpoint ⟨endpointName, template, parameters template, operations⟩).bind args).toList
    (¬HasSlot url ↔ AllOpen parts) ∧
    (AllOpen parts → (parameters template).map String.toList = parts.map (·.2) ∧
      ∃ slots rest, slots.map (·.2) = parts.map (·.2) ∧ Matches (clean template).toList slots rest ∧
        url = (List.zipWith (fun part arg => part.1 ++ arg.toList) slots args).flatten ++ rest) := by
  have hparameters : parameters template = parametersOf (weave parts tail) := by rw [← ht]; rfl
  obtain ⟨hall, hsome⟩ := parametersOf_weave h
  obtain ⟨slots, rest, hw, hnames, hc⟩ := exists_cleanChars (h.placed)
  have hclean : (clean template).toList = weave slots rest := by rw [clean, String.toList_ofList, ht, hc]
  have hslots : slots.length = parts.length := by simpa using congrArg List.length hnames
  have hurl : ((ResourceFactory.ofEndpoint ⟨endpointName, template, parameters template, operations⟩).bind
      args).toList = (List.zipWith (fun part arg => part.1 ++ arg.toList) slots args).flatten ++
        weave (slots.drop args.length) rest := by
    show (fill (clean template) args).toList = _
    rw [fill, String.toList_ofList, hclean, fillPieces_weave_drop hw, List.zipWith_map_right, List.length_map]
  refine ⟨by rw [TypeScript.length_callParameters, hlen], ?_⟩
  simp only [hurl]
  rw [hparameters] at hlen
  constructor
  · constructor
    · intro hfree
      by_contra hn
      -- there are more slots than arguments, and the first of the others is left
      have hlt : args.length < slots.length := by
        rw [hlen, hslots]
        exact hsome hn
      obtain ⟨⟨gap, name⟩, hcons⟩ : ∃ slot, slots.drop args.length = slot :: slots.drop (args.length + 1) :=
        ⟨_, List.drop_eq_getElem_cons hlt⟩
      have hmem : (gap, name) ∈ slots := List.mem_of_mem_drop (hcons ▸ List.mem_cons_self)
      rw [hcons] at hfree
      exact hfree (hasSlot_append_weave _ _ _ (hw.names _ hmem))
    · intro ha
      have hle : slots.length ≤ args.length := by
        rw [hlen, hall ha, List.length_map, hslots]
      rw [List.drop_of_length_le hle, weave_nil]
      refine BraceFree.not_hasSlot fun c hc => ?_
      rcases List.mem_append.1 hc with hc | hc
      · rw [← List.zipWith_map_right] at hc
        refine braceFree_flatten hw.gaps (fun arg harg => ?_) c hc
        obtain ⟨arg, hmem, rfl⟩ := List.mem_map.1 harg
        exact hb arg hmem
      · exact hw.tail c hc
  · intro ha
    have hle : slots.length ≤ args.length := by
      rw [hlen, hall ha, List.length_map, hslots]
    refine ⟨?_, slots, rest, hnames, ?_, ?_⟩
    · rw [hparameters, hall ha, List.map_map]
      exact List.map_congr_left fun part _ => String.toList_ofList
    · rw [hclean]
      exact hw.matches
    · rw [List.drop_of_length_le hle, weave_nil]

/-- Two placeholders that open their segments, one of them with a text behind it. -/
theorem bind_fills_iff_open :
    Woven [(" /".toList, "a".toList), ("//x/".toList, "b".toList)] ".json".toList ∧
    " /{a}//x/{b}.json".toList = weave [(" /".toList, "a".toList), ("//x/".toList, "b".toList)] ".json".toList ∧
    (∀ arg ∈ ["1", "2"], BraceFree arg.toList) ∧ ["1", "2"].length = (parameters " /{a}//x/{b}.json").length ∧
    AllOpen [(" /".toList, "a".toList), ("//x/".toList, "b".toList)] := by
  have h : Woven [(" /".toList, "a".toList), ("//x/".toList, "b".toList)] ".json".toList := by
    refine ⟨?_, ?_, braceFree_of_all (by decide)⟩
    · simp only [List.forall_mem_cons, List.not_mem_nil, false_imp_iff, implies_true, and_true]
      exact ⟨braceFree_of_all (by decide), braceFree_of_all (by decide)⟩
    · simp only [List.forall_mem_cons, List.not_mem_nil, false_imp_iff, implies_true, and_true]
      exact ⟨⟨by decide, List.all_eq_true.1 (by decide)⟩, by decide, List.all_eq_true.1 (by decide)⟩
  have ht : " /{a}//x/{b}.json".toList =
      weave [(" /".toList, "a".toList), ("//x/".toList, "b".toList)] ".json".toList := by decide
  have hb : ∀ arg ∈ ["1", "2"], BraceFree arg.toList := by
    simp only [List.forall_mem_cons, List.not_mem_nil, false_imp_iff, implies_true, and_true]
    exact ⟨braceFree_of_all (by decide), braceFree_of_all (by decide)⟩
  have hlen : ["1", "2"].length = (parameters " /{a}//x/{b}.json").length := by decide +kernel
  obtain ⟨-, hiff, -⟩ := bind_fills_iff h ht "items" [] hb hlen
  refine ⟨h, ht, hb, hlen, hiff.1 (BraceFree.not_hasSlot (braceFree_of_all ?_))⟩
  decide +kernel

/-- A placeholder behind a letter is no parameter, but a slot: each of the two arguments is put one place too
far to the left, and one placeholder is left. -/
theorem bind_slips_behind_letter :
    parameters "/v{b}/{a}/{b}" = ["a", "b"] ∧
    (ResourceFactory.ofEndpoint ⟨"items", "/v{b}/{a}/{b}", ["a", "b"], []⟩).bind ["1", "2"] = "/v1/2/{b}" := by
  constructor
  · decide +kernel
  · decide +kernel

end ResourceClient.Template
