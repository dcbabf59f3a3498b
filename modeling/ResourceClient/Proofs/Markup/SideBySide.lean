/-
Two texts that differ in letter case only, read side by side. The tags are delimited at the same places in both, so
that they have the same faults; and where the texts differ at free places only, the names are the same in small
letters and the values are the same but for those that are free.
-/
import ResourceClient.Proofs.Markup.Places
import ResourceClient.Proofs.Markup.Reading

namespace ResourceClient.Markup

open Text

/-- Whether two texts that are read side by side are the same at the places that are not free. -/
def Respects (free : List Bool) (ps : List (Char × Char)) : Prop :=
  ∀ x ∈ free.zip ps, x.1 = false → x.2.1 = x.2.2

theorem respects_append {m n : List Bool} {ps qs : List (Char × Char)} (h : m.length = ps.length) :
    Respects (m ++ n) (ps ++ qs) ↔ Respects m ps ∧ Respects n qs := by
  unfold Respects
  rw [List.zip_append h]
  exact List.forall_mem_append

theorem respects_cons {free : Bool} {m : List Bool} {p : Char × Char} {ps : List (Char × Char)} :
    Respects (free :: m) (p :: ps) ↔ (free = false → p.1 = p.2) ∧ Respects m ps := by
  unfold Respects
  rw [List.zip_cons_cons]
  exact List.forall_mem_cons

theorem Respects.split {m n : List Bool} {ps qs rs : List (Char × Char)} (h : Respects (m ++ n) ps)
    (hps : qs ++ rs = ps) (hlen : m.length = qs.length) : Respects m qs ∧ Respects n rs := by
  subst hps
  exact (respects_append hlen).1 h

theorem respects_of_fixedChars {m : List Bool} {ps : List (Char × Char)}
    (h : fixedChars m (firsts ps) = fixedChars m (seconds ps)) : Respects m ps := by
  induction ps generalizing m with
  | nil => simp [Respects]
  | cons p ps ih =>
    cases m with
    | nil => simp [Respects]
    | cons free m =>
      obtain ⟨hp, hps⟩ := List.cons.inj h
      refine respects_cons.2 ⟨?_, ih hps⟩
      rintro rfl
      exact Option.some.inj hp

/-- Where nothing is free the texts are the same. -/
theorem same_of_respects {cs : List Char} {ps : List (Char × Char)} (h : Respects (marks false cs) ps)
    (hlen : cs.length = ps.length) : ∀ p ∈ ps, p.1 = p.2 := by
  induction ps generalizing cs with
  | nil => simp
  | cons p ps ih =>
    obtain ⟨c, cs, rfl⟩ := List.exists_cons_of_length_pos (l := cs) (by rw [hlen]; simp)
    obtain ⟨hp, hps⟩ := respects_cons.1 h
    exact List.forall_mem_cons.2 ⟨hp rfl, ih hps (by simpa using hlen)⟩

theorem firsts_eq_seconds {ps : List (Char × Char)} (h : ∀ p ∈ ps, p.1 = p.2) : firsts ps = seconds ps :=
  List.map_congr_left h

/-! ## Attributes -/

theorem caseBlind_isMarkupBlank : CaseBlind isMarkupBlank :=
  caseBlind_of_capitals (by decide)

theorem caseBlind_isKeyChar : CaseBlind isKeyChar :=
  caseBlind_of_capitals (by decide)

theorem caseBlind_ne {d : Char} (hd : d.isAlpha = false) : CaseBlind (· != d) := by
  intro c
  rw [Bool.eq_iff_iff, bne_iff_ne, bne_iff_ne, Ne, Ne, toLower_eq_iff hd]

section

variable {size : Nat} {c d quote : Char} {cs more rest : List Char}

theorem readValue_of_nil (h : cs.dropWhile isMarkupBlank = []) : readValue size cs = .error (.missingValue size) := by
  unfold readValue
  rw [h]

theorem readValue_of_plain (h : cs.dropWhile isMarkupBlank = c :: more) (hc : ¬(c = '\x22' ∨ c = '\x27')) :
    readValue size cs =
      .ok (c :: more.takeWhile (fun c => !isMarkupBlank c), more.dropWhile fun c => !isMarkupBlank c) := by
  unfold readValue
  rw [h]
  exact if_neg hc

theorem readValue_of_open_quote (h : cs.dropWhile isMarkupBlank = quote :: more)
    (hq : quote = '\x22' ∨ quote = '\x27') (hopen : more.dropWhile (· != quote) = []) :
    readValue size cs = .error (.openQuote size quote) := by
  unfold readValue
  rw [h]
  refine (if_pos hq).trans ?_
  rw [hopen]

theorem readValue_of_quote (h : cs.dropWhile isMarkupBlank = quote :: more) (hq : quote = '\x22' ∨ quote = '\x27')
    (hclosed : more.dropWhile (· != quote) = d :: rest) :
    readValue size cs = .ok (more.takeWhile (· != quote), rest) := by
  unfold readValue
  rw [h]
  refine (if_pos hq).trans ?_
  rw [hclosed]

end

section

variable {ps qs : List (Char × Char)} {p : Char × Char}

/-- A value that two alike texts have, or lack for the same reason. It stands in what is read of them. -/
theorem readValue_alike (size : Nat) (h : Alike ps) :
    (∃ fault, readValue size (firsts ps) = .error fault ∧ readValue size (seconds ps) = .error fault) ∨
    ∃ piece value rest, ps = piece ++ rest ∧ value ⊆ piece ∧
      readValue size (firsts ps) = .ok (firsts value, firsts rest) ∧
      readValue size (seconds ps) = .ok (seconds value, seconds rest) := by
  have hcut := List.takeWhile_append_dropWhile (p := (isMarkupBlank ·.1)) (l := ps)
  have hfirst := dropWhile_firsts isMarkupBlank ps
  have hsecond := h.dropWhile_seconds caseBlind_isMarkupBlank
  cases hd : ps.dropWhile (isMarkupBlank ·.1) with
  | nil =>
    rw [hd] at hfirst hsecond
    exact .inl ⟨_, readValue_of_nil hfirst, readValue_of_nil hsecond⟩
  | cons q more =>
    rw [hd] at hcut hfirst hsecond
    rw [firsts_cons] at hfirst
    rw [seconds_cons] at hsecond
    have hmore : Alike (q :: more) := h.of_sublist (hd ▸ List.dropWhile_sublist _)
    have hrest : Alike more := hmore.of_sublist (List.sublist_cons_self ..)
    have hsign : ∀ {x : Char}, x.isAlpha = false → (q.2 = x ↔ q.1 = x) := hmore.eq_iff List.mem_cons_self
    by_cases hq : q.1 = '\x22' ∨ q.1 = '\x27'
    · have halpha : q.1.isAlpha = false := by rcases hq with hq | hq <;> rw [hq] <;> decide
      have hsame : q.2 = q.1 := (hsign halpha).2 rfl
      have hvalue := List.takeWhile_append_dropWhile (p := (·.1 != q.1)) (l := more)
      have hclosing := dropWhile_firsts (· != q.1) more
      have hclosing' := hrest.dropWhile_seconds (caseBlind_ne halpha)
      rw [hsame] at hsecond
      cases hr : more.dropWhile (·.1 != q.1) with
      | nil =>
        rw [hr] at hclosing hclosing'
        exact .inl ⟨_, readValue_of_open_quote hfirst hq hclosing, readValue_of_open_quote hsecond hq hclosing'⟩
      | cons r rest =>
        rw [hr] at hvalue hclosing hclosing'
        refine .inr ⟨ps.takeWhile (isMarkupBlank ·.1) ++ q :: (more.takeWhile (·.1 != q.1) ++ [r]),
          more.takeWhile (·.1 != q.1), rest, ?_, ?_, ?_, ?_⟩
        · rw [List.append_assoc, List.cons_append, List.append_assoc, List.singleton_append, hvalue, hcut]
        · intro x hx
          simp [hx]
        · rw [readValue_of_quote hfirst hq hclosing, takeWhile_firsts]
          rfl
        · rw [readValue_of_quote hsecond hq hclosing', hrest.takeWhile_seconds (caseBlind_ne halpha)]
          rfl
    · have hq' : ¬(q.2 = '\x22' ∨ q.2 = '\x27') := by rwa [hsign (by decide), hsign (by decide)]
      have hvalue := List.takeWhile_append_dropWhile (p := fun p => !isMarkupBlank p.1) (l := more)
      refine .inr ⟨ps.takeWhile (isMarkupBlank ·.1) ++ q :: more.takeWhile (fun p => !isMarkupBlank p.1),
        q :: more.takeWhile (fun p => !isMarkupBlank p.1), more.dropWhile (fun p => !isMarkupBlank p.1), ?_,
        List.subset_append_right .., ?_, ?_⟩
      · rw [List.append_assoc, List.cons_append, hvalue, hcut]
      · rw [readValue_of_plain hfirst hq, takeWhile_firsts, dropWhile_firsts]
        rfl
      · rw [readValue_of_plain hsecond hq', hrest.takeWhile_seconds caseBlind_isMarkupBlank.not,
          hrest.dropWhile_seconds caseBlind_isMarkupBlank.not]
        rfl

/-- There is a value behind a key iff an equals sign is the next character that is not blank. -/
theorem readAttribute_of_equals {size : Nat} {c : Char} {cs more : List Char}
    (h : (cs.dropWhile isKeyChar).dropWhile isMarkupBlank = '=' :: more) : readAttribute size c cs =
      (readValue size more).map fun (value, rest) => (⟨c :: cs.takeWhile isKeyChar, value⟩, rest) := by
  unfold readAttribute
  rw [h]
  rfl

theorem readAttribute_of_flag {size : Nat} {c : Char} {cs rest : List Char}
    (h : (cs.dropWhile isKeyChar).dropWhile isMarkupBlank = rest) (hrest : rest.head? ≠ some '=') :
    readAttribute size c cs = .ok (⟨c :: cs.takeWhile isKeyChar, []⟩, rest) := by
  unfold readAttribute
  rw [h]
  split
  · exact absurd rfl hrest
  · rfl

/-- An attribute that two alike texts have, or lack for the same reason: its key is cut off at the same place. -/
theorem readAttribute_alike (size : Nat) (h : Alike (p :: ps)) :
    (∃ fault, readAttribute size p.1 (firsts ps) = .error fault ∧
      readAttribute size p.2 (seconds ps) = .error fault) ∨
    ∃ piece value rest, ps.dropWhile (isKeyChar ·.1) = piece ++ rest ∧ value ⊆ piece ∧
      readAttribute size p.1 (firsts ps) =
        .ok (⟨firsts (p :: ps.takeWhile (isKeyChar ·.1)), firsts value⟩, firsts rest) ∧
      readAttribute size p.2 (seconds ps) =
        .ok (⟨seconds (p :: ps.takeWhile (isKeyChar ·.1)), seconds value⟩, seconds rest) := by
  have hps : Alike ps := h.of_sublist (List.sublist_cons_self ..)
  have hback : Alike (ps.dropWhile (isKeyChar ·.1)) := hps.of_sublist (List.dropWhile_sublist _)
  have hcut := List.takeWhile_append_dropWhile (p := (isMarkupBlank ·.1)) (l := ps.dropWhile (isKeyChar ·.1))
  have hkey : (seconds ps).takeWhile isKeyChar = seconds (ps.takeWhile (isKeyChar ·.1)) :=
    hps.takeWhile_seconds caseBlind_isKeyChar
  have hfirst : ((firsts ps).dropWhile isKeyChar).dropWhile isMarkupBlank =
      firsts ((ps.dropWhile (isKeyChar ·.1)).dropWhile (isMarkupBlank ·.1)) := by
    rw [dropWhile_firsts, dropWhile_firsts]
  have hsecond : ((seconds ps).dropWhile isKeyChar).dropWhile isMarkupBlank =
      seconds ((ps.dropWhile (isKeyChar ·.1)).dropWhile (isMarkupBlank ·.1)) := by
    rw [hps.dropWhile_seconds caseBlind_isKeyChar, hback.dropWhile_seconds caseBlind_isMarkupBlank]
  have hafter : Alike ((ps.dropWhile (isKeyChar ·.1)).dropWhile (isMarkupBlank ·.1)) :=
    hback.of_sublist (List.dropWhile_sublist _)
  cases hd : (ps.dropWhile (isKeyChar ·.1)).dropWhile (isMarkupBlank ·.1) with
  | nil =>
    rw [hd] at hcut hfirst hsecond
    rw [List.append_nil] at hcut
    refine .inr ⟨_, [], [], (List.append_nil _).symm, List.nil_subset _, ?_, ?_⟩
    · rw [readAttribute_of_flag hfirst (by simp), takeWhile_firsts]
      rfl
    · rw [readAttribute_of_flag hsecond (by simp), hkey]
      rfl
  | cons q more =>
    rw [hd] at hcut hafter hfirst hsecond
    have hequals : q.2 = '=' ↔ q.1 = '=' := hafter.eq_iff List.mem_cons_self (by decide)
    by_cases hq : q.1 = '='
    · obtain ⟨c, d⟩ := q
      obtain rfl : c = '=' := hq
      obtain rfl : d = '=' := hequals.2 rfl
      rw [firsts_cons] at hfirst
      rw [seconds_cons] at hsecond
      rw [readAttribute_of_equals hfirst, readAttribute_of_equals hsecond, takeWhile_firsts, hkey]
      rcases readValue_alike size (hafter.of_sublist (List.sublist_cons_self ..)) with
        ⟨fault, hv, hv'⟩ | ⟨piece, value, rest, rfl, hsub, hv, hv'⟩
      · exact .inl ⟨fault, by rw [hv]; rfl, by rw [hv']; rfl⟩
      · refine .inr ⟨(ps.dropWhile (isKeyChar ·.1)).takeWhile (isMarkupBlank ·.1) ++ ('=', '=') :: piece, value, rest,
          ?_, ?_, by rw [hv]; rfl, by rw [hv']; rfl⟩
        · rw [List.append_assoc, List.cons_append, hcut]
        · exact fun x hx => List.mem_append_right _ (List.mem_cons_of_mem _ (hsub hx))
    · refine .inr ⟨(ps.dropWhile (isKeyChar ·.1)).takeWhile (isMarkupBlank ·.1), [], q :: more, hcut.symm,
        List.nil_subset _, ?_, ?_⟩
      · rw [readAttribute_of_flag hfirst (by simpa using hq), takeWhile_firsts]
        rfl
      · rw [readAttribute_of_flag hsecond (by simpa using hequals.not.2 hq), hkey]
        rfl

end

/-- Two attributes that are alike but for the letter case of the key, and of the value when it is free. -/
def SameAttribute (element : String) (a a' : RawAttribute) : Prop :=
  foldChars a.key = foldChars a'.key ∧
    (a.value = a'.value ∨ (a.isFree element = true ∧ foldChars a.value = foldChars a'.value))

/-- The places of an attribute's value tell whether its letter case may differ. -/
theorem sameAttribute_of_respects {element : String} {key piece value : List (Char × Char)} (hkey : Alike key)
    (hpiece : Alike piece) (hsub : value ⊆ piece)
    (hr : Respects (marks (RawAttribute.isFree element ⟨firsts key, firsts value⟩) (firsts piece)) piece) :
    SameAttribute element ⟨firsts key, firsts value⟩ ⟨seconds key, seconds value⟩ := by
  refine ⟨hkey.foldChars_eq, ?_⟩
  cases hf : RawAttribute.isFree element ⟨firsts key, firsts value⟩ with
  | true => exact .inr ⟨rfl, Alike.foldChars_eq fun x hx => hpiece x (hsub hx)⟩
  | false =>
    rw [hf] at hr
    have hpairs := same_of_respects hr length_firsts
    exact .inl (firsts_eq_seconds fun x hx => hpairs x (hsub hx))

/-- The attributes of two texts that are the same at the places that are not free. -/
theorem readAttributes_alike (element : String) (size : Nat) {ps : List (Char × Char)} (h : Alike ps)
    (hr : Respects (attributePlaces element size (firsts ps)) ps) :
    (∃ fault, readAttributes size (firsts ps) = .error fault ∧ readAttributes size (seconds ps) = .error fault) ∨
    ∃ as as', readAttributes size (firsts ps) = .ok as ∧ readAttributes size (seconds ps) = .ok as' ∧
      List.Forall₂ (SameAttribute element) as as' := by
  have hcut := List.takeWhile_append_dropWhile (p := (isMarkupBlank ·.1)) (l := ps)
  have hfirst := dropWhile_firsts isMarkupBlank ps
  have hsecond := h.dropWhile_seconds caseBlind_isMarkupBlank
  cases hd : ps.dropWhile (isMarkupBlank ·.1) with
  | nil =>
    rw [hd] at hfirst hsecond
    exact .inr ⟨[], [], readAttributes_of_nil hfirst, readAttributes_of_nil hsecond, .nil⟩
  | cons q more =>
    rw [hd] at hcut
    rw [hd, firsts_cons] at hfirst
    rw [hd, seconds_cons] at hsecond
    have hmore : Alike (q :: more) := h.of_sublist (hd ▸ List.dropWhile_sublist _)
    rcases readAttribute_alike size hmore with ⟨fault, ha, ha'⟩ | ⟨piece, value, rest, hback, hsub, ha, ha'⟩
    · exact .inl ⟨fault, readAttributes_of_error hfirst ha, readAttributes_of_error hsecond ha'⟩
    · have hkey : (q :: more.takeWhile (isKeyChar ·.1)) ++ more.dropWhile (isKeyChar ·.1) = q :: more :=
        congrArg (q :: ·) List.takeWhile_append_dropWhile
      have hpiece : (firsts more).dropWhile isKeyChar = firsts piece ++ firsts rest := by
        rw [dropWhile_firsts, hback, firsts_append]
      have hparts : Alike (piece ++ rest) := hback ▸ (hmore.of_sublist (List.sublist_cons_self ..)).of_sublist
        (List.dropWhile_sublist _)
      have hlen : rest.length < ps.length := by
        rw [← hcut, ← hkey, hback]
        simp only [List.length_append, List.length_cons]
        omega
      -- the places of the blanks, of the key, of the value and of what follows it
      rw [attributePlaces_of_ok hfirst ha hpiece] at hr
      have hr := (hr.split hcut (by rw [length_marks, takeWhile_firsts, length_firsts])).2
      have hr := (hr.split hkey (by simp [takeWhile_firsts])).2
      obtain ⟨hvalue, hrest⟩ := hr.split hback.symm (by rw [length_marks, length_firsts])
      have hsame := sameAttribute_of_respects (hmore.of_sublist ((List.takeWhile_sublist _).cons_cons q))
        (Alike.append_iff.1 hparts).1 hsub hvalue
      rcases readAttributes_alike element size (Alike.append_iff.1 hparts).2 hrest with
        ⟨fault, has, has'⟩ | ⟨as, as', has, has', hall⟩
      · exact .inl ⟨fault, by rw [readAttributes_of_ok hfirst ha, has]; rfl,
          by rw [readAttributes_of_ok hsecond ha', has']; rfl⟩
      · exact .inr ⟨_, _, by rw [readAttributes_of_ok hfirst ha, has]; rfl,
          by rw [readAttributes_of_ok hsecond ha', has']; rfl, .cons hsame hall⟩
termination_by ps.length

end ResourceClient.Markup
