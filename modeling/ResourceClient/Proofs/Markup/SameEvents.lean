/-
The events of two texts that differ at free places only. They have the same faults at the same positions, and the
same events but for the letter case of free values.
-/
import ResourceClient.Proofs.Markup.ReferenceText
import ResourceClient.Proofs.Markup.SideBySide
import Mathlib.Data.List.Forall2

namespace ResourceClient.Markup

open Text

/-! ## Sizes -/

theorem byteSize_foldChars (cs : List Char) : byteSize (foldChars cs) = byteSize cs := by
  induction cs with
  | nil => rfl
  | cons c cs ih =>
    show c.toLower.utf8Size + byteSize (foldChars cs) = _
    rw [ih, utf8Size_toLower, byteSize]

theorem dropMark_foldChars (cs : List Char) : dropMark (foldChars cs) = foldChars (dropMark cs) := by
  cases cs with
  | nil => rfl
  | cons c cs =>
    by_cases hc : c = '\ufeff'
    · rw [hc]
      rfl
    · have hplain : ∀ {d : Char} {ds : List Char}, d ≠ '\ufeff' → dropMark (d :: ds) = d :: ds := by
        intro d ds hd
        rw [dropMark]
        exact fun ds he => hd (List.cons.inj he).1
      show dropMark (c.toLower :: foldChars cs) = _
      rw [hplain hc, hplain ((toLower_eq_iff (by decide)).not.2 hc)]
      rfl

/-- Positions count from the same place in texts that differ in letter case only. -/
theorem byteSize_dropMark_congr {cs ds : List Char} (h : foldChars cs = foldChars ds) :
    byteSize (dropMark cs) = byteSize (dropMark ds) := by
  rw [← byteSize_foldChars, ← dropMark_foldChars, h, dropMark_foldChars, byteSize_foldChars]

theorem byteSize_alike {ps : List (Char × Char)} (h : Alike ps) : byteSize (firsts ps) = byteSize (seconds ps) := by
  rw [← byteSize_foldChars, h.foldChars_eq, byteSize_foldChars]

/-! ## Values -/

theorem valueOf_of_not_mem {cs : List Char} (h : '&' ∉ cs) : valueOf cs = cs := by
  have hdecode : decode? cs = some cs := by
    induction cs with
    | nil => rw [decode?]
    | cons c cs ih =>
      obtain ⟨hc, hcs⟩ := not_or.1 (List.mem_cons.not.1 h)
      rw [decode?_cons_plain (Ne.symm hc), ih hcs]
      rfl
  rw [valueOf, hdecode]
  rfl

/-- A free value is not decoded, so that its letter case is that of the text. -/
theorem SameAttribute.entry_eq {element : String} {a a' : RawAttribute} (h : SameAttribute element a a') :
    (a.entry.1, foldFree element a.entry.1 a.entry.2) = (a'.entry.1, foldFree element a'.entry.1 a'.entry.2) := by
  obtain ⟨hkey, hvalue⟩ := h
  have hkeys : a.entry.1 = a'.entry.1 := congrArg String.ofList hkey
  rw [hkeys]
  refine congrArg (a'.entry.1, ·) ?_
  rcases hvalue with hvalue | ⟨hfree, hvalue⟩
  · show foldFree _ _ (String.ofList (valueOf a.value)) = _
    rw [hvalue]
    rfl
  · obtain ⟨hfree, hplain⟩ := Bool.and_eq_true_iff.1 hfree
    have hplain : '&' ∉ a.value := by simpa using hplain
    have hplain' : '&' ∉ a'.value := by rwa [← mem_foldChars (by decide), ← hvalue, mem_foldChars (by decide)]
    have hfree : isFreeKey element a'.entry.1 = true := hkeys ▸ hfree
    unfold foldFree
    rw [if_pos hfree, if_pos hfree]
    show fold (String.ofList (valueOf a.value)) = fold (String.ofList (valueOf a'.value))
    rw [valueOf_of_not_mem hplain, valueOf_of_not_mem hplain', fold, fold, String.toList_ofList,
      String.toList_ofList, hvalue]

/-! ## Tags -/

theorem tagName_eq (content : List Char) :
    tagName content = String.ofList ((foldChars content).takeWhile fun c => !isMarkupBlank c) := by
  rw [tagName, foldChars, foldChars, List.takeWhile_map, caseBlind_isMarkupBlank.not.comp_toLower]

theorem closingName_eq (content : List Char) :
    closingName content = String.ofList (if (dropEndWhile isMarkupBlank (foldChars content)).isEmpty
      then foldChars content else dropEndWhile isMarkupBlank (foldChars content)) := by
  rw [dropEndWhile_foldChars caseBlind_isMarkupBlank, foldChars, foldChars, List.isEmpty_map, ← apply_ite]
  rfl

section

variable {ps : List (Char × Char)}

/-- Two contents have attributes that are the same but for the letter case of free values, or the same fault. -/
theorem tagAttributes_alike (h : Alike ps) (hr : Respects (contentPlaces (firsts ps)) ps) :
    tagName (firsts ps) = tagName (seconds ps) ∧
    (tagAttributes (firsts ps)).map (Attributes.folded (tagName (firsts ps))) =
      (tagAttributes (seconds ps)).map (Attributes.folded (tagName (firsts ps))) := by
  have hfold := h.foldChars_eq
  refine ⟨by rw [tagName_eq, tagName_eq, hfold], ?_⟩
  have hcut := List.takeWhile_append_dropWhile (p := fun p : Char × Char => !isMarkupBlank p.1) (l := ps)
  obtain ⟨-, hr⟩ := hr.split hcut (by rw [length_marks, takeWhile_firsts, length_firsts])
  rw [dropWhile_firsts] at hr
  unfold tagAttributes
  rw [← byteSize_alike h, dropWhile_firsts, h.dropWhile_seconds caseBlind_isMarkupBlank.not]
  rcases readAttributes_alike _ _ (h.of_sublist (List.dropWhile_sublist _)) hr with
    ⟨fault, has, has'⟩ | ⟨as, as', has, has', hall⟩
  · rw [has, has']
  · rw [has, has']
    refine congrArg Except.ok ?_
    have hentries : List.Forall₂ (· = ·) (as.map fun a => (a.entry.1, foldFree _ a.entry.1 a.entry.2))
        (as'.map fun a => (a.entry.1, foldFree _ a.entry.1 a.entry.2)) :=
      List.rel_map (fun _ _ hsame => hsame.entry_eq) hall
    rw [List.forall₂_eq_eq_eq] at hentries
    rw [Attributes.folded_ofList, Attributes.folded_ofList, List.map_map, List.map_map]
    exact congrArg Attributes.ofList hentries

/-- The slash at the end of a content counts where there is none at its start. -/
theorem ofContent_of_head? {content : List Char} (h : content.head? ≠ some '/') : Tag.ofContent content =
    if content.getLast? = some '/' then .empty content.dropLast else .opening content := by
  rw [Tag.ofContent]
  rintro content' rfl
  exact h rfl

theorem ofTag_opening (content : List Char) : (Event.ofTag (.opening content)).map Event.folded =
    ((tagAttributes content).map (Attributes.folded (tagName content))).map (.opening (tagName content)) := by
  show ((tagAttributes content).map _).map _ = _
  cases tagAttributes content <;> rfl

theorem ofTag_empty (content : List Char) : (Event.ofTag (.empty content)).map Event.folded =
    ((tagAttributes content).map (Attributes.folded (tagName content))).map (.empty (tagName content)) := by
  show ((tagAttributes content).map _).map _ = _
  cases tagAttributes content <;> rfl

/-- Two tags are of one kind, since their slashes are at the same places. -/
theorem ofTag_alike (h : Alike ps) (hr : Respects (Tag.ofContent (firsts ps)).places ps) :
    (Event.ofTag (.ofContent (firsts ps))).map Event.folded =
      (Event.ofTag (.ofContent (seconds ps))).map Event.folded := by
  by_cases hhead : (firsts ps).head? = some '/'
  · obtain ⟨⟨c, d⟩, qs, rfl⟩ := List.exists_cons_of_ne_nil (l := ps) (by rintro rfl; cases hhead)
    obtain rfl : c = '/' := Option.some.inj hhead
    obtain rfl : d = '/' := (h.eq_iff List.mem_cons_self (by decide)).2 rfl
    have hname : closingName (firsts qs) = closingName (seconds qs) := by
      rw [closingName_eq, closingName_eq, (h.of_sublist (List.sublist_cons_self ..)).foldChars_eq]
    exact congrArg (fun name => Except.ok (Event.closing name)) hname
  · have hhead' : (seconds ps).head? ≠ some '/' := by
      cases ps with
      | nil => exact fun he => by cases he
      | cons p ps =>
        intro he
        have hp := (h.eq_iff List.mem_cons_self (by decide)).1 (Option.some.inj he)
        exact hhead (congrArg some hp)
    rcases List.eq_nil_or_concat ps with rfl | ⟨qs, q, rfl⟩
    · rfl
    · rw [List.concat_eq_append] at h hr hhead hhead' ⊢
      have hslash : q.2 = '/' ↔ q.1 = '/' := h.eq_iff (by simp) (by decide)
      rw [ofContent_of_head? hhead] at hr ⊢
      rw [ofContent_of_head? hhead']
      by_cases hq : q.1 = '/'
      · have hlast : (firsts (qs ++ [q])).getLast? = some '/' := by simp [hq]
        have hlast' : (seconds (qs ++ [q])).getLast? = some '/' := by simp [hslash.2 hq]
        have hcontent : (firsts (qs ++ [q])).dropLast = firsts qs := by simp
        have hcontent' : (seconds (qs ++ [q])).dropLast = seconds qs := by simp
        rw [if_pos hlast, hcontent] at hr ⊢
        rw [if_pos hlast', hcontent', ofTag_empty, ofTag_empty]
        obtain ⟨hr, -⟩ := hr.split rfl (by rw [length_contentPlaces, length_firsts])
        obtain ⟨hname, hattributes⟩ := tagAttributes_alike (Alike.append_iff.1 h).1 hr
        rw [hattributes, hname]
      · have hlast : (firsts (qs ++ [q])).getLast? ≠ some '/' := by simp [hq]
        have hlast' : (seconds (qs ++ [q])).getLast? ≠ some '/' := by simp [hslash.not.2 hq]
        rw [if_neg hlast] at hr ⊢
        rw [if_neg hlast', ofTag_opening, ofTag_opening]
        obtain ⟨hname, hattributes⟩ := tagAttributes_alike h hr
        rw [hattributes, hname]

/-- Brackets and quotes are no letters. -/
theorem cutTag_foldChars {quote : Option Char} (hquote : ∀ q ∈ quote, q.isAlpha = false) (cs : List Char) :
    cutTag quote (foldChars cs) = (cutTag quote cs).map (Prod.map foldChars foldChars) := by
  fun_induction cutTag quote cs with
  | case1 => rfl
  | case2 c cs q ih =>
    have hnext : ∀ x ∈ (if c = q then none else some q), x.isAlpha = false := by
      intro x hx
      split at hx
      · cases hx
      · exact hquote x hx
    show cutTag (some q) (c.toLower :: foldChars cs) = _
    simp only [cutTag, toLower_eq_iff (hquote q rfl), ih hnext, Option.map_map]
    rfl
  | case3 => rfl
  | case4 c cs hc ih =>
    have hbracket : c.toLower ≠ '>' := (toLower_eq_iff (by decide)).not.2 hc
    show cutTag none (c.toLower :: foldChars cs) = _
    have hquotes : (c.toLower = '\x22' ∨ c.toLower = '\x27') ↔ (c = '\x22' ∨ c = '\x27') :=
      or_congr (toLower_eq_iff (by decide)) (toLower_eq_iff (by decide))
    have hopen : (if c.toLower = '\x22' ∨ c.toLower = '\x27' then some c.toLower else none) =
        if c = '\x22' ∨ c = '\x27' then some c else none := by
      simp only [hquotes]
      split
      · rename_i hq
        rcases hq with rfl | rfl <;> rfl
      · rfl
    have hnext : ∀ x ∈ (if c = '\x22' ∨ c = '\x27' then some c else none), x.isAlpha = false := by
      intro x hx
      split at hx
      · rename_i hq
        cases hx
        rcases hq with rfl | rfl <;> decide
      · cases hx
    rw [cutTag, if_neg hbracket, hopen, ih hnext, Option.map_map, Option.map_map]
    rfl

/-- A tag ends at the same bracket in two texts. -/
theorem cutTag_alike (h : Alike ps) {content rest : List Char} (hcut : cutTag none (firsts ps) = some (content, rest)) :
    ∃ qs rs, ps = qs ++ ('>', '>') :: rs ∧ content = firsts qs ∧ rest = firsts rs ∧
      cutTag none (seconds ps) = some (seconds qs, seconds rs) := by
  have hfold : ∀ cs, cutTag none (foldChars cs) = (cutTag none cs).map (Prod.map foldChars foldChars) :=
    cutTag_foldChars (by simp)
  have hsecond := hfold (seconds ps)
  rw [← h.foldChars_eq, hfold, hcut] at hsecond
  obtain ⟨⟨content', rest'⟩, hcut', hparts⟩ := Option.map_eq_some_iff.1 hsecond.symm
  obtain ⟨hcontent, hrest⟩ := Prod.mk.inj hparts
  obtain ⟨qs, rs, rfl, rfl, hrs⟩ := exists_of_firsts_eq_append (cutTag_eq hcut).1
  obtain ⟨d, rs, rfl, rfl⟩ := exists_of_firsts_eq_cons hrs
  have hlen : (seconds qs).length = content'.length := by
    have := congrArg List.length hcontent
    simpa [foldChars] using this.symm
  have heq := (cutTag_eq hcut').1
  rw [seconds_append, seconds_cons] at heq
  obtain ⟨rfl, htail⟩ := List.append_inj heq hlen
  obtain ⟨rfl, rfl⟩ := List.cons.inj htail
  exact ⟨qs, rs, rfl, rfl, rfl, hcut'⟩

end

/-! ## Texts -/

section

variable {ps : List (Char × Char)} {rest : List Char}

/-- What is passed over in one of two texts is the same in the other, and passed over there. -/
theorem step_alike_skip (h : Alike ps) (hr : Respects (places (firsts ps)) ps) (hs : step (firsts ps) = .skip rest) :
    ∃ rs, rest = firsts rs ∧ step (seconds ps) = .skip (seconds rs) ∧ Alike rs ∧
      Respects (places (firsts rs)) rs := by
  obtain ⟨piece, hpiece, hskip⟩ := isPiece_skip hs
  obtain ⟨qs, rs, rfl, rfl, rfl⟩ := exists_of_firsts_eq_append hpiece
  rw [firsts_append, places_of_skip (hskip _)] at hr
  obtain ⟨hqs, hrs⟩ := (respects_append (by simp)).1 hr
  have hsame : firsts qs = seconds qs := firsts_eq_seconds (same_of_respects hqs length_firsts)
  refine ⟨rs, rfl, ?_, (Alike.append_iff.1 h).2, hrs⟩
  rw [seconds_append, ← hsame]
  exact hskip _

/-- A tag in one of two texts is a tag in the other. -/
theorem step_alike_tag {tag : Tag} (h : Alike ps) (hr : Respects (places (firsts ps)) ps)
    (hs : step (firsts ps) = .tag tag rest) :
    ∃ qs rs, (tag = .ofContent (firsts qs) ∧ rest = firsts rs) ∧
      step (seconds ps) = .tag (.ofContent (seconds qs)) (seconds rs) ∧
      (Alike qs ∧ Respects tag.places qs) ∧ Alike rs ∧ Respects (places (firsts rs)) rs := by
  obtain ⟨c, more, content, hcs, hc, hcut, rfl⟩ := exists_of_step_tag hs
  obtain ⟨b, ps, rfl, hps⟩ := exists_of_firsts_eq_cons hcs
  obtain rfl : b = '<' := (h.eq_iff List.mem_cons_self (by decide)).2 rfl
  obtain ⟨d, more, rfl, rfl⟩ := exists_of_firsts_eq_cons hps
  have hafter : Alike ((c, d) :: more) := h.of_sublist (List.sublist_cons_self ..)
  obtain ⟨qs, rs, hcontent, rfl, rfl, hcut'⟩ := cutTag_alike hafter hcut
  have hsign : ∀ {x : Char}, x.isAlpha = false → (d = x ↔ c = x) := hafter.eq_iff List.mem_cons_self
  have hd : d ≠ '!' ∧ d ≠ '?' := ⟨(hsign (by decide)).not.2 hc.1, (hsign (by decide)).not.2 hc.2⟩
  rw [places_of_tag hs] at hr
  obtain ⟨-, hr⟩ := respects_cons.1 hr
  rw [hcontent] at hr hafter
  obtain ⟨hqs, hrs⟩ := Alike.append_iff.1 hafter
  obtain ⟨htag, hr⟩ := (respects_append (by rw [Tag.length_places, Tag.chars_ofContent, length_firsts])).1 hr
  exact ⟨qs, rs, ⟨rfl, rfl⟩, step_of_cutTag hd hcut', ⟨hqs, htag⟩, hrs.of_sublist (List.sublist_cons_self ..),
    (respects_cons.1 hr).2⟩

end

/-- Two texts that are the same at the places that are not free have the same fault, and the same events but for
the letter case of free values. -/
theorem readEvents_alike (size : Nat) {ps : List (Char × Char)} (h : Alike ps)
    (hr : Respects (places (firsts ps)) ps) :
    (readEvents size (firsts ps)).1.map Event.folded = (readEvents size (seconds ps)).1.map Event.folded ∧
    (readEvents size (firsts ps)).2 = (readEvents size (seconds ps)).2 := by
  have hsame : (step (firsts ps)).rest? = none → firsts ps = seconds ps := by
    intro hs
    rw [places_of_rest? hs] at hr
    exact firsts_eq_seconds (same_of_respects hr length_firsts)
  cases hs : step (firsts ps) with
  | finished =>
    rw [← hsame (by rw [hs]; rfl)]
    exact ⟨rfl, rfl⟩
  | fault fault rest =>
    rw [← hsame (by rw [hs]; rfl)]
    exact ⟨rfl, rfl⟩
  | skip rest =>
    have hshort := step_length (by rw [hs]; rfl)
    obtain ⟨rs, rfl, hs', hrs, hr⟩ := step_alike_skip h hr hs
    have : rs.length < ps.length := by simpa using hshort
    rw [readEvents_of_skip hs, readEvents_of_skip hs']
    exact readEvents_alike size hrs hr
  | tag tag rest =>
    have hshort := step_length (by rw [hs]; rfl)
    obtain ⟨qs, rs, ⟨rfl, rfl⟩, hs', ⟨hqs, htag⟩, hrs, hr⟩ := step_alike_tag h hr hs
    have : rs.length < ps.length := by simpa using hshort
    rcases cases_of_map_eq_map (ofTag_alike hqs htag) with ⟨fault, he, he'⟩ | ⟨e, e', he, he', hsame⟩
    · rw [readEvents_of_faulty_tag hs he, readEvents_of_faulty_tag hs' he', byteSize_alike hrs]
      exact ⟨rfl, rfl⟩
    · obtain ⟨hevents, hfault⟩ := readEvents_alike size hrs hr
      rw [readEvents_of_tag hs he, readEvents_of_tag hs' he']
      exact ⟨congrArg₂ List.cons hsame hevents, hfault⟩
termination_by ps.length

/-- Two texts that differ at free places only have the same fault, and the same events but for the letter case of
free values. -/
theorem events_alike {markup other : String} {ps : List (Char × Char)} (h : Alike ps)
    (hmarkup : firsts ps = markup.toList) (hother : seconds ps = other.toList)
    (hr : Respects (places markup.toList) ps) :
    (events markup).1.map Event.folded = (events other).1.map Event.folded ∧
      (events markup).2 = (events other).2 := by
  rw [events_eq, events_eq, ← hmarkup, ← hother, byteSize_dropMark_congr h.foldChars_eq]
  exact readEvents_alike _ h (hmarkup ▸ hr)

end ResourceClient.Markup
