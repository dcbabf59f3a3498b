/-
Constraints. Cleaning keeps every brace of a template, so a placeholder is left as its name alone exactly when its
constraint has no braces. A constraint with braces, such as a quantifier, keeps its placeholder from being a slot:
the name and its colon stay in every URL, whatever the arguments.
-/
import ResourceClient.Proofs.Uri.Filling
import ResourceClient.Proofs.Uri.Normal

namespace ResourceClient.Template

open Text

variable {cs p w c s : List Char} {x : Char}

/-! ## Braces are kept -/

theorem count_dropWhile {keep : Char → Bool} (h : keep x = false) (cs : List Char) :
    (cs.dropWhile keep).count x = cs.count x := by
  have hnone : (cs.takeWhile keep).count x = 0 := by
    refine List.count_eq_zero.2 fun hm => ?_
    have hx : keep x = true := List.mem_takeWhile_imp hm
    rw [h] at hx
    cases hx
  calc (cs.dropWhile keep).count x
      = (cs.takeWhile keep).count x + (cs.dropWhile keep).count x := by rw [hnone, Nat.zero_add]
    _ = cs.count x := by rw [← List.count_append, List.takeWhile_append_dropWhile]

theorem count_trim (h : isBlank x = false) (cs : List Char) : (trim cs).count x = cs.count x := by
  rw [trim, dropEndWhile, List.count_reverse, count_dropWhile h, List.count_reverse, count_dropWhile h]

theorem BraceFree.count (h : BraceFree cs) (hx : isBrace x = true) : cs.count x = 0 := by
  refine List.count_eq_zero.2 fun hm => ?_
  rw [h x hm] at hx
  cases hx

theorem count_dropConstraints (hx : isBrace x = true) (cs : List Char) :
    (dropConstraints cs).count x = cs.count x := by
  have hcolon : (':' == x) = false := by
    rw [beq_eq_false_iff_ne]
    rintro rfl
    exact absurd hx (by decide)
  fun_induction dropConstraints cs with
  | case1 => rfl
  | case2 cs name rest h _ ih =>
    obtain ⟨before, constraint, rfl, hb, -, hc, rfl⟩ := constrained?_eq_some h
    simp only [List.cons_append, List.count_cons, List.count_append, hb.count hx, hc.count hx,
      (hb.sublist trim_sublist).count hx, hcolon, ih]
    simp
  | case3 cs _ ih => rw [List.count_cons, List.count_cons, ih]
  | case4 c cs _ ih => rw [List.count_cons, List.count_cons, ih]

theorem count_collapseSlashes (hx : x ≠ '/') (cs : List Char) : (collapseSlashes cs).count x = cs.count x := by
  fun_induction collapseSlashes cs with
  | case1 cs ih => exact ih.trans (List.count_cons_of_ne hx.symm).symm
  | case2 c cs _ ih => rw [List.count_cons, List.count_cons, ih]
  | case3 => rfl

/-- Cleaning keeps every brace. -/
theorem count_cleanChars (hx : isBrace x = true) (cs : List Char) : (cleanChars cs).count x = cs.count x := by
  have hbrace : x = '{' ∨ x = '}' := by simpa [isBrace] using hx
  have hslash : x ≠ '/' := by rcases hbrace with rfl | rfl <;> decide
  have hblank : isBlank x = false := by rcases hbrace with rfl | rfl <;> decide
  have hkept : (!isControl x) = true := by rcases hbrace with rfl | rfl <;> decide
  rw [cleanChars, count_collapseSlashes hslash, count_dropConstraints hx, count_trim hblank,
    List.count_filter (p := fun c => !isControl c) hkept]

/-! ## One placeholder -/

/-- A text without its control characters. -/
def printable (cs : List Char) : List Char :=
  cs.filter fun c => !isControl c

theorem printable_sublist (cs : List Char) : (printable cs).Sublist cs :=
  List.filter_sublist

theorem printable_append_mark (h : isMark x = true) (a b : List Char) :
    printable (a ++ x :: b) = printable a ++ x :: printable b := by
  have hx : (!isControl x) = true := by simp [not_control_of_isMark h]
  rw [printable, List.filter_append, List.filter_cons_of_pos (p := fun c => !isControl c) hx]
  rfl

theorem IsName.printable_eq (hw : IsName w) : printable w = w :=
  List.filter_eq_self.2 fun c hc => by simp [not_control_of_isSlotChar (hw.2 c hc)]

/-- Cleaning treats what stands around a placeholder the same whatever is between the braces. -/
theorem exists_cleanChars_braced (p s : List Char) : ∃ before after, before.Sublist p ∧
    ∀ inner, cleanChars (p ++ '{' :: (inner ++ '}' :: s)) =
      collapseSlashes (dropConstraints (before ++ '{' :: (printable inner ++ '}' :: after))) := by
  refine ⟨(printable p).dropWhile isBlank, dropEndWhile isBlank (printable s),
    (List.dropWhile_sublist _).trans (printable_sublist p), fun inner => ?_⟩
  have htrim : trim (printable (p ++ '{' :: (inner ++ '}' :: s))) = (printable p).dropWhile isBlank ++
      '{' :: (printable inner ++ '}' :: dropEndWhile isBlank (printable s)) := by
    rw [printable_append_mark (by decide), printable_append_mark (by decide), trim_append_cons (by decide),
      dropEndWhile_append_cons (by decide)]
  rw [← htrim]
  rfl

/-- A constraint without braces is removed. -/
theorem cleanChars_constrained (hw : IsName w) (hp : BraceFree p) (hc : BraceFree c) (s : List Char) :
    cleanChars (p ++ '{' :: (w ++ ':' :: c ++ '}' :: s)) = cleanChars (p ++ '{' :: (w ++ '}' :: s)) := by
  obtain ⟨before, after, hbefore, hclean⟩ := exists_cleanChars_braced p s
  have hnil : Blank [] := fun d hd => absurd hd List.not_mem_nil
  have hdrop := (Placeholder.constrained hw hnil hnil (hc.sublist (printable_sublist c))).dropConstraints after
  have hplain := (Placeholder.plain hw).dropConstraints after
  simp only [List.nil_append, List.append_nil, List.cons_append, List.append_assoc] at hdrop hplain
  rw [hclean, hclean, printable_append_mark (by decide), hw.printable_eq, dropConstraints_append (hp.sublist hbefore),
    dropConstraints_append (hp.sublist hbefore), List.append_assoc, List.cons_append, hdrop, hplain]

/-- A constraint is removed only if it has no braces. -/
theorem braceFree_of_cleanChars_eq
    (h : cleanChars (p ++ '{' :: (w ++ ':' :: c ++ '}' :: s)) = cleanChars (p ++ '{' :: (w ++ '}' :: s))) :
    BraceFree c := by
  intro x hm
  by_contra hx
  have hx : isBrace x = true := by simpa using hx
  have hcount := congrArg (List.count x) h
  rw [count_cleanChars hx, count_cleanChars hx] at hcount
  simp only [List.count_append, List.count_cons] at hcount
  have hpos : 0 < c.count x := List.count_pos_iff.2 hm
  omega

/-! ## Constraints with braces -/

/-- A text whose braces are balanced. -/
inductive Balanced : List Char → Prop
  | text {t : List Char} (h : BraceFree t) : Balanced t
  | group {t inner rest : List Char} (h : BraceFree t) (hi : Balanced inner) (hr : Balanced rest) :
      Balanced (t ++ '{' :: (inner ++ '}' :: rest))

/-- The first of balanced braces opens. -/
theorem Balanced.exists_open (h : Balanced c) (hn : ¬BraceFree c) : ∃ a b, c = a ++ '{' :: b ∧ BraceFree a := by
  cases h with
  | text h => exact absurd h hn
  | group h hi hr => exact ⟨_, _, rfl, h⟩

/-- A brace that opens within a constraint keeps it. -/
theorem dropConstraints_nested {a : List Char} (hw : IsName w) (ha : BraceFree a) (b : List Char) :
    dropConstraints ('{' :: (w ++ ':' :: (a ++ '{' :: b))) =
      '{' :: (w ++ ':' :: dropConstraints (a ++ '{' :: b)) := by
  have hmarks : ∀ c ∈ w, (c != ':' && !isBrace c) = true := fun c hc =>
    not_colon_brace_of_not_mark (hw.not_mark c hc)
  have hnone : constrained? (w ++ ':' :: (a ++ '{' :: b)) = none := by
    unfold constrained?
    rw [dropWhile_append_cons_of_all hmarks (by decide)]
    simp only
    rw [dropWhile_append_cons_of_all (fun c hc => by simp [ha c hc]) (by decide)]
    rfl
  rw [dropConstraints, if_pos rfl]
  split
  · rename_i hsome
    rw [hnone] at hsome
    cases hsome
  · rw [dropConstraints_append hw.braceFree, dropConstraints_cons_of_ne (by decide)]

theorem exists_cleanChars_nested (hw : IsName w) (hp : BraceFree p) (hc : Balanced c) (hn : ¬BraceFree c)
    (s : List Char) :
    ∃ a b, '{' ∉ a ∧ cleanChars (p ++ '{' :: (w ++ ':' :: c ++ '}' :: s)) = a ++ '{' :: (w ++ ':' :: b) := by
  obtain ⟨before, after, hbefore, hclean⟩ := exists_cleanChars_braced p s
  have hbefore : BraceFree before := hp.sublist hbefore
  obtain ⟨a, b, rfl, ha⟩ := hc.exists_open hn
  have ha : BraceFree (printable a) := ha.sublist (printable_sublist a)
  have hinner : printable (w ++ ':' :: (a ++ '{' :: b)) ++ '}' :: after =
      w ++ ':' :: (printable a ++ '{' :: (printable b ++ '}' :: after)) := by
    rw [printable_append_mark (by decide), printable_append_mark (by decide), hw.printable_eq]
    simp
  rw [hclean, hinner, dropConstraints_append hbefore, dropConstraints_nested hw ha,
    collapseSlashes_append_cons (by decide), collapseSlashes_append_cons (by decide),
    collapseSlashes_of_not_mem hw.slash_not_mem]
  exact ⟨_, _, (hbefore.sublist (collapseSlashes_sublist _)).not_mem, rfl⟩

theorem not_startsSlot_colon (hw : IsName w) (cs : List Char) : ¬StartsSlot ('{' :: (w ++ ':' :: cs)) := by
  rintro ⟨name, more, hn, he⟩
  have hsame : (w ++ ':' :: cs).dropWhile isSlotChar = (name ++ '}' :: more).dropWhile isSlotChar := by
    rw [(List.cons.inj he).2]
  -- a colon ends the one name and a brace the other
  rw [dropWhile_append_cons_of_all hw.2 (by decide), dropWhile_append_cons_of_all hn.2 (by decide)] at hsame
  exact absurd (List.cons.inj hsame).1 (by decide)

/-- A name with a colon behind it is filled by no argument. -/
theorem exists_fillPieces_colon {a : List Char} (hw : IsName w) (ha : '{' ∉ a) (b : List Char)
    (args : List (List Char)) :
    ∃ b', fillPieces (pieces (a ++ '{' :: (w ++ ':' :: b))) args = a ++ '{' :: (w ++ ':' :: b') := by
  have hcolon : '{' ∉ w ++ [':'] := by simp [hw.braceFree.not_mem]
  have hpieces := pieces_append hcolon b
  rw [List.append_assoc, List.cons_append, List.nil_append] at hpieces
  rw [pieces_append ha, fillPieces_literals, pieces_of_not_startsSlot (not_startsSlot_colon hw b), fillPieces,
    hpieces, fillPieces_literals]
  exact ⟨_, by rw [List.append_assoc, List.cons_append, List.nil_append]⟩

/-- A placeholder between texts without braces is the one slot of their clean form. -/
theorem exists_matches_cleanChars (hw : IsName w) (hp : BraceFree p) (hs : BraceFree s) :
    ∃ gap tail, Matches (cleanChars (p ++ '{' :: (w ++ '}' :: s))) [(gap, w)] tail := by
  have hplaced : Placed (p ++ ('{' :: w ++ ['}'] ++ s)) ([] ++ [w]) := .slot (.text hp) (.plain hw) hs
  obtain ⟨parts, tail, hwoven, hnames, hclean⟩ := exists_cleanChars hplaced
  obtain ⟨⟨gap, name⟩, rfl, rfl⟩ := List.map_eq_singleton_iff.1 hnames
  have hassoc : p ++ '{' :: (name ++ '}' :: s) = p ++ ('{' :: name ++ ['}'] ++ s) := by simp
  rw [hassoc, hclean]
  exact ⟨gap, tail, hwoven.matches⟩

/-- A constraint is removed exactly if it has no braces. Then its placeholder is the one slot and takes the first
argument; otherwise no argument is put in its place. -/
theorem clean_constrained_iff (hw : IsName w) (hp : BraceFree p) (hs : BraceFree s) (hc : Balanced c)
    {template plain : String} (ht : template.toList = p ++ '{' :: (w ++ ':' :: c ++ '}' :: s))
    (hplain : plain.toList = p ++ '{' :: (w ++ '}' :: s)) :
    (clean template = clean plain ↔ BraceFree c) ∧
    (BraceFree c → ∃ gap tail, Matches (clean template).toList [(gap, w)] tail ∧
      ∀ (arg : String) (args : List String),
        ((ResourceFactory.ofTemplate template).bind (arg :: args)).toList = gap ++ arg.toList ++ tail) ∧
    (¬BraceFree c → ∀ args : List String, ∃ a b,
      ((ResourceFactory.ofTemplate template).bind args).toList = a ++ '{' :: (w ++ ':' :: b)) := by
  have hchars : ∀ t : String, (clean t).toList = cleanChars t.toList := fun t => String.toList_ofList
  have hurl : ∀ args : List String, ((ResourceFactory.ofTemplate template).bind args).toList =
      fillPieces (pieces (clean template).toList) (args.map String.toList) := fun args => String.toList_ofList
  refine ⟨⟨fun h => ?_, fun h => ?_⟩, fun h => ?_, fun h args => ?_⟩
  · have hsame := congrArg String.toList h
    rw [hchars, hchars, ht, hplain] at hsame
    exact braceFree_of_cleanChars_eq hsame
  · rw [clean, clean, ht, hplain, cleanChars_constrained hw hp h]
  · obtain ⟨gap, tail, hm⟩ := exists_matches_cleanChars hw hp hs
    rw [← cleanChars_constrained hw hp h, ← ht, ← hchars] at hm
    refine ⟨gap, tail, hm, fun arg args => ?_⟩
    rw [hurl, hm.fillPieces]
    simp [weave_nil]
  · obtain ⟨a, b, ha, hclean⟩ := exists_cleanChars_nested hw hp hc h s
    obtain ⟨b', hfill⟩ := exists_fillPieces_colon hw ha b (args.map String.toList)
    exact ⟨a, b', by rw [hurl, hchars, ht, hclean, hfill]⟩

/-- A constraint with a colon and slashes in it, between doubled slashes. -/
theorem clean_constrained_iff_slashes :
    IsName "id".toList ∧ BraceFree " //a/".toList ∧ BraceFree "//x".toList ∧ Balanced " [a:b]+//".toList ∧
    clean " //a/{id: [a:b]+//}//x" = clean " //a/{id}//x" := by
  have hw : IsName "id".toList := ⟨by decide, List.all_eq_true.1 (by decide)⟩
  have hp : BraceFree " //a/".toList := braceFree_of_all (by decide)
  have hs : BraceFree "//x".toList := braceFree_of_all (by decide)
  have hc : BraceFree " [a:b]+//".toList := braceFree_of_all (by decide)
  have ht : " //a/{id: [a:b]+//}//x".toList =
      " //a/".toList ++ '{' :: ("id".toList ++ ':' :: " [a:b]+//".toList ++ '}' :: "//x".toList) := by decide
  have hplain : " //a/{id}//x".toList = " //a/".toList ++ '{' :: ("id".toList ++ '}' :: "//x".toList) := by decide
  obtain ⟨hiff, -, -⟩ := clean_constrained_iff hw hp hs (.text hc) ht hplain
  exact ⟨hw, hp, hs, .text hc, hiff.2 hc⟩

/-- A quantifier keeps its constraint: the parameter is declared, and its argument is put into the quantifier. -/
theorem clean_keeps_quantifier :
    Balanced "[0-9]{3}".toList ∧ clean "/{id:[0-9]{3}}" = "/{id:[0-9]{3}}" ∧ clean "/{id}" = "/{id}" ∧
    parameters "/{id:[0-9]{3}}" = ["id"] ∧
    (ResourceFactory.ofTemplate "/{id:[0-9]{3}}").bind ["7"] = "/{id:[0-9]7}" := by
  have hc : Balanced ("[0-9]".toList ++ '{' :: ("3".toList ++ '}' :: [])) :=
    .group (braceFree_of_all (by decide)) (.text (braceFree_of_all (by decide))) (.text (braceFree_of_all (by decide)))
  refine ⟨hc, ?_, ?_, ?_, ?_⟩
  · decide +kernel
  · decide +kernel
  · decide +kernel
  · decide +kernel

end ResourceClient.Template
