/-
The letter case of ASCII: what does not depend on it, on characters, on texts, and on two texts that are read side
by side.
-/
import ResourceClient.Proofs.Text.Case
import ResourceClient.Proofs.Text.Search
import ResourceClient.Text.Blank
import Mathlib.Data.List.TakeWhile

namespace ResourceClient.Text

/-! ## Characters -/

/-- Whether a test gives the same for a capital and its small letter. -/
def CaseBlind (p : Char → Bool) : Prop :=
  ∀ c, p c.toLower = p c

variable {p : Char → Bool} {c d : Char}

/-- Only the capitals of ASCII have to be looked at. -/
theorem caseBlind_of_capitals (h : ∀ n < 26, p (Char.ofNat (65 + n)).toLower = p (Char.ofNat (65 + n))) :
    CaseBlind p := by
  intro c
  by_cases hu : c.isUpper = true
  · have hrange := isUpper_iff.1 hu
    have hc := h (c.toNat - 65) (by omega)
    rwa [Nat.add_sub_cancel' hrange.1, Char.ofNat_toNat] at hc
  · rw [toLower_of_not_isUpper (by simpa using hu)]

theorem CaseBlind.eq (h : CaseBlind p) (he : c.toLower = d.toLower) : p c = p d := by
  rw [← h c, he, h d]

theorem CaseBlind.not (h : CaseBlind p) : CaseBlind fun c => !p c :=
  fun c => congrArg (!·) (h c)

theorem isLower_toLower (h : c.isUpper = true) : c.toLower.isLower = true := by
  have hrange := isUpper_iff.1 h
  exact of_ascii (p := fun d => d.isUpper = true → d.toLower.isLower = true) (by decide) (by omega) h

theorem toLower_toLower (c : Char) : c.toLower.toLower = c.toLower := by
  by_cases hu : c.isUpper = true
  · refine toLower_of_not_isUpper ?_
    have hrange := isLower_iff.1 (isLower_toLower hu)
    rw [Bool.eq_false_iff, Ne, isUpper_iff]
    omega
  · have hsame : c.toLower = c := toLower_of_not_isUpper (by simpa using hu)
    rw [hsame, hsame]

theorem utf8Size_toLower (c : Char) : c.toLower.utf8Size = c.utf8Size := by
  by_cases hu : c.isUpper = true
  · have hrange := isUpper_iff.1 hu
    exact of_ascii (p := fun d => d.toLower.utf8Size = d.utf8Size) (by decide) (by omega)
  · rw [toLower_of_not_isUpper (by simpa using hu)]

/-- A sign that is no letter is met in no letter case but its own. -/
theorem toLower_eq_iff (hd : d.isAlpha = false) : c.toLower = d ↔ c = d := by
  by_cases hu : c.isUpper = true
  · have hc : c.isAlpha = true := Bool.or_eq_true_iff.2 (.inl hu)
    have hlow : c.toLower.isAlpha = true := Bool.or_eq_true_iff.2 (.inr (isLower_toLower hu))
    exact iff_of_false (ne_of_class hlow hd) (ne_of_class hc hd)
  · rw [toLower_of_not_isUpper (by simpa using hu)]

theorem caseBlind_isBlank : CaseBlind isBlank :=
  caseBlind_of_capitals (by decide)

/-! ## Texts -/

theorem foldChars_foldChars (cs : List Char) : foldChars (foldChars cs) = foldChars cs := by
  unfold foldChars
  rw [List.map_map]
  exact List.map_congr_left fun c _ => toLower_toLower c

theorem fold_fold (s : String) : fold (fold s) = fold s := by
  unfold fold
  rw [String.toList_ofList, foldChars_foldChars]

theorem CaseBlind.comp_toLower (h : CaseBlind p) : p ∘ Char.toLower = p :=
  funext h

theorem dropWhile_foldChars (h : CaseBlind p) (cs : List Char) :
    (foldChars cs).dropWhile p = foldChars (cs.dropWhile p) := by
  unfold foldChars
  rw [List.dropWhile_map, h.comp_toLower]

theorem dropEndWhile_foldChars (h : CaseBlind p) (cs : List Char) :
    dropEndWhile p (foldChars cs) = foldChars (dropEndWhile p cs) := by
  have hreverse : ∀ ds : List Char, (foldChars ds).reverse = foldChars ds.reverse := fun ds => List.map_reverse.symm
  unfold dropEndWhile
  rw [hreverse, dropWhile_foldChars h, hreverse]

theorem trim_foldChars (cs : List Char) : trim (foldChars cs) = foldChars (trim cs) := by
  unfold trim
  rw [dropWhile_foldChars caseBlind_isBlank, dropEndWhile_foldChars caseBlind_isBlank]

theorem trimmed_fold (s : String) : trimmed (fold s) = fold (trimmed s) := by
  unfold trimmed fold
  rw [String.toList_ofList, String.toList_ofList, trim_foldChars]

theorem fold_eq_empty {s : String} : fold s = "" ↔ s = "" := by
  unfold fold foldChars
  rw [← String.toList_inj, ← String.toList_inj, String.toList_ofList]
  simp

theorem nonblank?_fold (s : String) : nonblank? (fold s) = (nonblank? s).map fold := by
  unfold nonblank?
  rw [trimmed_fold]
  by_cases h : trimmed s = ""
  · rw [if_pos h, if_pos (fold_eq_empty.2 h)]
    rfl
  · rw [if_neg h, if_neg (fold_eq_empty.not.2 h)]
    rfl

theorem sameFolded_fold (a b : String) : sameFolded a (fold b) = sameFolded a b := by
  unfold sameFolded
  rw [fold_fold]

/-- A sign that is no letter is in a text whatever the case of its letters. -/
theorem mem_foldChars {cs : List Char} (hd : d.isAlpha = false) : d ∈ foldChars cs ↔ d ∈ cs := by
  constructor
  · intro h
    obtain ⟨c, hc, hlow⟩ := List.mem_map.1 h
    rwa [← (toLower_eq_iff hd).1 hlow]
  · exact fun h => List.mem_map.2 ⟨d, h, (toLower_eq_iff hd).2 rfl⟩

/-! ## Words -/

/-- Signs that are no letters are found in a text whatever the case of its letters. -/
theorem strip?_foldChars {word : List Char} (h : word.any Char.isAlpha = false) (cs : List Char) :
    strip? word (foldChars cs) = (strip? word cs).map foldChars := by
  have hsame : word.isPrefixOf (foldChars cs) = word.isPrefixOf cs := by
    induction word generalizing cs with
    | nil => rfl
    | cons d word ih =>
      cases cs with
      | nil => rfl
      | cons c cs =>
        obtain ⟨hd, hword⟩ := Bool.or_eq_false_iff.1 h
        have hhead : (d == c.toLower) = (d == c) := by
          rw [Bool.eq_iff_iff, beq_iff_eq, beq_iff_eq, eq_comm, toLower_eq_iff hd, eq_comm]
        show ((d == c.toLower) && word.isPrefixOf (foldChars cs)) = ((d == c) && word.isPrefixOf cs)
        rw [hhead, ih hword]
  unfold strip?
  rw [hsame]
  split
  · exact congrArg some List.map_drop.symm
  · rfl

theorem after?_foldChars {word : List Char} (h : word.any Char.isAlpha = false) (cs : List Char) :
    after? word (foldChars cs) = (after? word cs).map foldChars := by
  induction cs with
  | nil => exact strip?_foldChars h []
  | cons c cs ih =>
    show (strip? word (foldChars (c :: cs))).or (after? word (foldChars cs)) = _
    rw [strip?_foldChars h, ih, after?, Option.map_or]

/-! ## Full lower case -/

theorem lowerChar_toLower (c : Char) : lowerChar c.toLower = lowerChar c := by
  by_cases hu : c.isUpper = true
  · have hlow : c.toLower.isLower = true := isLower_toLower hu
    rw [lowerChar_of_isLower_toLower hlow, lowerChar_of_isLower_toLower (by rwa [toLower_toLower]), toLower_toLower]
  · rw [toLower_of_not_isUpper (by simpa using hu)]

/-- Only the ranges that begin in ASCII matter to a character of ASCII. -/
theorem inRanges_of_ascii {ranges low : List (Nat × Nat)} (h : ranges.filter (·.1 < 128) = low)
    (hc : c.toNat < 128) : inRanges ranges c = inRanges low c := by
  rw [← h, inRanges, inRanges, List.any_filter]
  refine List.any_congr rfl fun r => ?_
  rw [Bool.eq_iff_iff]
  simp
  omega

theorem caseBlind_inRanges {ranges low : List (Nat × Nat)} (h : ranges.filter (·.1 < 128) = low)
    (hlow : CaseBlind (inRanges low)) : CaseBlind (inRanges ranges) := by
  intro c
  by_cases hu : c.isUpper = true
  · have hupper := isUpper_iff.1 hu
    have hlower := isLower_iff.1 (isLower_toLower hu)
    rw [inRanges_of_ascii h (by omega), inRanges_of_ascii h (by omega), hlow c]
  · rw [toLower_of_not_isUpper (by simpa using hu)]

theorem startsCased_foldChars (cs : List Char) : startsCased (foldChars cs) = startsCased cs := by
  have hsigns : CaseTable.ignorableRanges.filter (·.1 < 128) = [(39, 39), (46, 46), (58, 58), (94, 94), (96, 96)] := by
    decide
  have hletters : CaseTable.casedRanges.filter (·.1 < 128) = [(65, 90), (97, 122)] := by decide
  have hignorable : CaseBlind (inRanges CaseTable.ignorableRanges) :=
    caseBlind_inRanges hsigns (caseBlind_of_capitals (by decide))
  have hcased : CaseBlind (inRanges CaseTable.casedRanges) :=
    caseBlind_inRanges hletters (caseBlind_of_capitals (by decide))
  unfold startsCased
  rw [dropWhile_foldChars hignorable]
  cases cs.dropWhile (inRanges CaseTable.ignorableRanges) with
  | nil => rfl
  | cons c cs => exact hcased c

/-- The letters around a sigma count as letters in either case. -/
theorem lowerAfter_foldChars (before cs : List Char) :
    lowerAfter (foldChars before) (foldChars cs) = lowerAfter before cs := by
  induction cs generalizing before with
  | nil => rfl
  | cons c cs ih =>
    have hsigma : c.toLower = 'Σ' ↔ c = 'Σ' := toLower_eq_iff (by decide)
    have hback : startsCased (cs.map Char.toLower) = startsCased cs := startsCased_foldChars cs
    show (if c.toLower = 'Σ' then _ else _) ++ lowerAfter (foldChars (c :: before)) (foldChars cs) = _
    rw [ih, startsCased_foldChars, hback, lowerChar_toLower, lowerAfter]
    simp only [hsigma]

theorem lower_fold (s : String) : lower (fold s) = lower s := by
  unfold lower fold
  rw [String.toList_ofList]
  exact congrArg String.ofList (lowerAfter_foldChars [] s.toList)

/-! ## Two texts side by side -/

/-- The first of two texts that are read side by side, as a text of pairs. -/
def firsts (ps : List (Char × Char)) : List Char :=
  ps.map Prod.fst

/-- The second of two texts that are read side by side. -/
def seconds (ps : List (Char × Char)) : List Char :=
  ps.map Prod.snd

section

variable {p : Char × Char} {ps qs : List (Char × Char)}

@[simp] theorem firsts_nil : firsts [] = [] := rfl

@[simp] theorem seconds_nil : seconds [] = [] := rfl

@[simp] theorem firsts_cons : firsts (p :: ps) = p.1 :: firsts ps := rfl

@[simp] theorem seconds_cons : seconds (p :: ps) = p.2 :: seconds ps := rfl

@[simp] theorem firsts_append : firsts (ps ++ qs) = firsts ps ++ firsts qs :=
  List.map_append

@[simp] theorem seconds_append : seconds (ps ++ qs) = seconds ps ++ seconds qs :=
  List.map_append

@[simp] theorem length_firsts : (firsts ps).length = ps.length :=
  List.length_map _

@[simp] theorem length_seconds : (seconds ps).length = ps.length :=
  List.length_map _

theorem exists_of_firsts_eq_append {cs ds : List Char} (h : firsts ps = cs ++ ds) :
    ∃ qs rs, ps = qs ++ rs ∧ firsts qs = cs ∧ firsts rs = ds :=
  List.map_eq_append_iff.1 h

theorem exists_of_firsts_eq_cons {cs : List Char} (h : firsts ps = c :: cs) :
    ∃ d qs, ps = (c, d) :: qs ∧ firsts qs = cs := by
  obtain ⟨⟨_, d⟩, qs, rfl, rfl, hqs⟩ := List.map_eq_cons_iff.1 h
  exact ⟨d, qs, rfl, hqs⟩

end

/-- Whether two texts differ in letter case only. -/
def Alike (ps : List (Char × Char)) : Prop :=
  ∀ p ∈ ps, p.1.toLower = p.2.toLower

namespace Alike

variable {q : Char × Char} {ps qs : List (Char × Char)}

theorem append_iff : Alike (ps ++ qs) ↔ Alike ps ∧ Alike qs :=
  List.forall_mem_append

theorem of_sublist (h : Alike ps) (hs : qs.Sublist ps) : Alike qs :=
  fun q hq => h q (hs.subset hq)

/-- A sign that is no letter stands at the same places in both texts. -/
theorem eq_iff (h : Alike ps) (hq : q ∈ ps) (hd : d.isAlpha = false) : q.2 = d ↔ q.1 = d := by
  rw [← toLower_eq_iff (c := q.2) hd, ← h q hq, toLower_eq_iff hd]

theorem foldChars_eq (h : Alike ps) : foldChars (firsts ps) = foldChars (seconds ps) := by
  unfold foldChars firsts seconds
  rw [List.map_map, List.map_map]
  exact List.map_congr_left h

/-- Two texts that fold to one are read side by side. -/
theorem exists_of_foldChars {cs ds : List Char} (h : foldChars cs = foldChars ds) :
    ∃ ps, Alike ps ∧ firsts ps = cs ∧ seconds ps = ds := by
  have hlen : cs.length = ds.length := by simpa [foldChars] using congrArg List.length h
  refine ⟨cs.zip ds, ?_, List.map_fst_zip hlen.le, List.map_snd_zip hlen.ge⟩
  intro p hp
  obtain ⟨i, hi, rfl⟩ := List.mem_iff_getElem.1 hp
  have hi' : i < cs.length ∧ i < ds.length := by
    rw [List.length_zip] at hi
    omega
  have hsame := congrArg (·[i]?) h
  simpa [foldChars, hi'.1, hi'.2] using hsame

theorem takeWhile_seconds (h : Alike ps) (hp : CaseBlind p) :
    (seconds ps).takeWhile p = seconds (ps.takeWhile (p ·.1)) := by
  induction ps with
  | nil => rfl
  | cons q ps ih =>
    have hq : p q.2 = p q.1 := (hp.eq (h q List.mem_cons_self)).symm
    rw [seconds_cons, List.takeWhile_cons, List.takeWhile_cons, hq, ih (h.of_sublist (List.sublist_cons_self ..))]
    split <;> rfl

theorem dropWhile_seconds (h : Alike ps) (hp : CaseBlind p) :
    (seconds ps).dropWhile p = seconds (ps.dropWhile (p ·.1)) := by
  induction ps with
  | nil => rfl
  | cons q ps ih =>
    have hq : p q.2 = p q.1 := (hp.eq (h q List.mem_cons_self)).symm
    rw [seconds_cons, List.dropWhile_cons, List.dropWhile_cons, hq, ih (h.of_sublist (List.sublist_cons_self ..))]
    split <;> rfl

end Alike

theorem takeWhile_firsts (p : Char → Bool) (ps : List (Char × Char)) :
    (firsts ps).takeWhile p = firsts (ps.takeWhile (p ·.1)) :=
  List.takeWhile_map ..

theorem dropWhile_firsts (p : Char → Bool) (ps : List (Char × Char)) :
    (firsts ps).dropWhile p = firsts (ps.dropWhile (p ·.1)) :=
  List.dropWhile_map ..

end ResourceClient.Text
