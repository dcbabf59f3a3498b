/-
The clean form of a template is a normal form: what a clean text is, that cleaning gives one, and that cleaning
leaves one as it is.
-/
import ResourceClient.Proofs.Uri.Clean

namespace ResourceClient.Template

open Text

/-! ## Blank ends -/

theorem not_blank_head_trim {cs : List Char} : ∀ c ∈ (trim cs).head?, isBlank c = false := by
  intro c hc
  have hd := List.head?_dropWhile_not isBlank cs
  unfold trim at hc
  cases he : cs.dropWhile isBlank with
  | nil =>
    rw [he] at hc
    cases hc
  | cons d ds =>
    -- the first character that is not blank is not dropped from the end either
    rw [he] at hc hd
    have hkeep := dropEndWhile_append_cons (a := []) (b := ds) (c := d) (p := isBlank) (by simpa using hd)
    rw [List.nil_append, List.nil_append] at hkeep
    rw [hkeep] at hc
    cases hc
    simpa using hd

theorem not_blank_last_trim {cs : List Char} : ∀ c ∈ (trim cs).getLast?, isBlank c = false := by
  intro c hc
  have hd := List.head?_dropWhile_not isBlank (cs.dropWhile isBlank).reverse
  unfold trim dropEndWhile at hc
  rw [List.getLast?_reverse] at hc
  rw [Option.mem_def.1 hc] at hd
  simpa using hd

/-- Trimming leaves a text that is not blank at either end as it is. -/
theorem trim_eq_self {cs : List Char} (hh : ∀ c ∈ cs.head?, isBlank c = false)
    (hl : ∀ c ∈ cs.getLast?, isBlank c = false) : trim cs = cs := by
  have hfront : cs.dropWhile isBlank = cs := by
    cases cs with
    | nil => rfl
    | cons c cs => exact List.dropWhile_cons_of_neg (by simp [hh c rfl])
  rcases List.eq_nil_or_concat cs with rfl | ⟨ds, d, rfl⟩
  · rfl
  · have hd : isBlank d = false := hl d (by simp)
    rw [trim, hfront, List.concat_eq_append, dropEndWhile_append_cons hd]
    rfl

/-! ## Constraints -/

/-- Whether a text, whose opening brace has just been read, is that of a parameter with a constraint. -/
def StartsConstraint (cs : List Char) : Prop :=
  ∃ text post, cs = text ++ '}' :: post ∧ BraceFree text ∧ ':' ∈ text

/-- Whether a text has braces around a text without braces that has a colon. -/
def HasConstraint (cs : List Char) : Prop :=
  ∃ pre inner, cs = pre ++ '{' :: inner ∧ StartsConstraint inner

theorem hasConstraint_cons {c : Char} {cs : List Char} :
    HasConstraint (c :: cs) ↔ (c = '{' ∧ StartsConstraint cs) ∨ HasConstraint cs := by
  constructor
  · rintro ⟨pre, inner, he, hs⟩
    cases pre with
    | nil =>
      obtain ⟨rfl, rfl⟩ := List.cons.inj he
      exact .inl ⟨rfl, hs⟩
    | cons d pre => exact .inr ⟨pre, inner, (List.cons.inj he).2, hs⟩
  · rintro (⟨rfl, hs⟩ | ⟨pre, inner, rfl, hs⟩)
    · exact ⟨[], cs, rfl, hs⟩
    · exact ⟨c :: pre, inner, rfl, hs⟩

theorem not_hasConstraint_nil : ¬HasConstraint [] := by
  rintro ⟨pre, inner, he, -⟩
  simp at he

theorem constrained?_eq_some {cs name rest : List Char} (h : constrained? cs = some (name, rest)) :
    ∃ before constraint, cs = before ++ ':' :: (constraint ++ '}' :: rest) ∧ BraceFree before ∧ ':' ∉ before ∧
      BraceFree constraint ∧ name = trim before := by
  unfold constrained? at h
  split at h
  · rename_i more h1
    split at h
    · rename_i rest' h2
      cases h
      have hbefore : ∀ c ∈ cs.takeWhile fun c => c != ':' && !isBrace c, (c != ':' && !isBrace c) = true :=
        fun c hc => List.mem_takeWhile_imp (p := fun c => c != ':' && !isBrace c) hc
      refine ⟨_, more.takeWhile fun c => !isBrace c, ?_, fun c hc => ?_, fun hc => ?_, fun c hc => ?_, rfl⟩
      · rw [← h2, List.takeWhile_append_dropWhile, ← h1, List.takeWhile_append_dropWhile]
      · have hb := hbefore c hc
        simp_all
      · have hb := hbefore _ hc
        simp at hb
      · have hr : (!isBrace c) = true := List.mem_takeWhile_imp (p := fun c => !isBrace c) hc
        simpa using hr
    · cases h
  · cases h

theorem BraceFree.append {a b : List Char} (ha : BraceFree a) (hb : BraceFree b) : BraceFree (a ++ b) := by
  intro c hc
  rcases List.mem_append.1 hc with hc | hc
  · exact ha c hc
  · exact hb c hc

/-- A constraint is found wherever one starts. -/
theorem isSome_constrained?_iff {cs : List Char} : (constrained? cs).isSome = true ↔ StartsConstraint cs := by
  constructor
  · intro h
    obtain ⟨⟨name, rest⟩, h⟩ := Option.isSome_iff_exists.1 h
    obtain ⟨before, constraint, rfl, hb, -, hc, -⟩ := constrained?_eq_some h
    have hcolon : BraceFree [':'] := fun c h => by
      rw [List.mem_singleton.1 h]
      decide
    exact ⟨before ++ [':'] ++ constraint, rest, by simp, (hb.append hcolon).append hc, by simp⟩
  · rintro ⟨text, post, rfl, hf, hmem⟩
    obtain ⟨before, constraint, rfl, hne⟩ := List.eq_append_cons_of_mem hmem
    have hbefore : ∀ c ∈ before, (c != ':' && !isBrace c) = true := by
      intro c hc
      have hcolon : c ≠ ':' := fun he => hne (he ▸ hc)
      simp [hcolon, hf c (List.mem_append_left _ hc)]
    have hconstraint : ∀ c ∈ constraint, (!isBrace c) = true := fun c hc => by
      simp [hf c (List.mem_append_right _ (List.mem_cons_of_mem _ hc))]
    unfold constrained?
    rw [List.append_assoc, List.cons_append, dropWhile_append_cons_of_all hbefore (by decide)]
    simp only
    rw [dropWhile_append_cons_of_all hconstraint (by decide)]
    rfl

theorem dropConstraints_sublist (cs : List Char) : (dropConstraints cs).Sublist cs := by
  fun_induction dropConstraints cs with
  | case1 => exact List.Sublist.slnil
  | case2 cs name rest h _ ih =>
    obtain ⟨before, constraint, rfl, -, -, -, rfl⟩ := constrained?_eq_some h
    refine List.Sublist.cons_cons _ (trim_sublist.append ?_)
    exact ((ih.cons_cons '}').trans (List.sublist_append_right constraint _)).cons ':'
  | case3 cs _ ih => exact ih.cons_cons _
  | case4 c cs _ ih => exact ih.cons_cons c

theorem head?_dropConstraints (cs : List Char) : (dropConstraints cs).head? = cs.head? := by
  fun_cases dropConstraints cs <;> rfl

theorem getLast?_dropConstraints (cs : List Char) : (dropConstraints cs).getLast? = cs.getLast? := by
  fun_induction dropConstraints cs with
  | case1 => rfl
  | case2 cs name rest h _ ih =>
    obtain ⟨before, constraint, rfl, -, -, -, rfl⟩ := constrained?_eq_some h
    -- the closing brace and what follows it end both texts
    have hl : '{' :: (before ++ ':' :: (constraint ++ '}' :: rest)) =
        ('{' :: before ++ ':' :: constraint) ++ '}' :: rest := by simp
    rw [hl, List.getLast?_append, List.getLast?_append, List.getLast?_cons, List.getLast?_cons, ih]
    simp [List.getLast?_cons]
  | case3 cs _ ih => rw [List.getLast?_cons, List.getLast?_cons, ih]
  | case4 c cs _ ih => rw [List.getLast?_cons, List.getLast?_cons, ih]

/-- What is put in the place of a constraint opens no other one. -/
theorem hasConstraint_of_name {name cs : List Char} (hn : BraceFree name) (hc : ':' ∉ name)
    (h : HasConstraint ('{' :: name ++ '}' :: cs)) : HasConstraint cs := by
  have hname : ∀ t : List Char, BraceFree t → HasConstraint (t ++ '}' :: cs) → HasConstraint cs := by
    intro t ht h
    induction t with
    | nil => exact (hasConstraint_cons.1 h).resolve_left fun hb => absurd hb.1 (by decide)
    | cons c t ih =>
      refine ih (fun d hd => ht d (List.mem_cons_of_mem _ hd)) ((hasConstraint_cons.1 h).resolve_left ?_)
      rintro ⟨rfl, -⟩
      exact absurd (ht _ List.mem_cons_self) (by decide)
  refine hname name hn ((hasConstraint_cons.1 h).resolve_left ?_)
  rintro ⟨-, text, post, he, ht, hmem⟩
  have hcut : ∀ {t ds : List Char}, BraceFree t → (t ++ '}' :: ds).takeWhile (fun c => !isBrace c) = t :=
    fun ht => takeWhile_append_cons (fun c hm => by simp [ht c hm]) (by decide)
  -- both texts are what comes before the first brace
  have hsame : name = text := by rw [← hcut hn, ← hcut ht, ← he]; rfl
  exact hc (hsame ▸ hmem)

theorem dropConstraints_eq_cons {c : Char} {cs ds : List Char} (hne : c ≠ '{') (h : dropConstraints cs = c :: ds) :
    ∃ cs', cs = c :: cs' ∧ dropConstraints cs' = ds := by
  have hhead := head?_dropConstraints cs
  rw [h] at hhead
  cases cs with
  | nil => cases hhead
  | cons d cs =>
    cases hhead
    rw [dropConstraints_cons_of_ne hne] at h
    exact ⟨cs, rfl, (List.cons.inj h).2⟩

/-- The text before the first brace stays, and so does that brace. -/
theorem startsConstraint_of_dropConstraints {cs : List Char} (h : StartsConstraint (dropConstraints cs)) :
    StartsConstraint cs := by
  obtain ⟨text, post, he, ht, hmem⟩ := h
  have hback : ∃ post', cs = text ++ '}' :: post' := by
    clear hmem
    induction text generalizing cs with
    | nil =>
      obtain ⟨cs', rfl, -⟩ := dropConstraints_eq_cons (by decide) he
      exact ⟨cs', rfl⟩
    | cons c text ih =>
      have hc : c ≠ '{' := by
        rintro rfl
        exact absurd (ht _ List.mem_cons_self) (by decide)
      obtain ⟨cs', rfl, he'⟩ := dropConstraints_eq_cons hc he
      obtain ⟨post', rfl⟩ := ih he' fun d hd => ht d (List.mem_cons_of_mem _ hd)
      exact ⟨post', rfl⟩
  obtain ⟨post', rfl⟩ := hback
  exact ⟨text, post', rfl, ht, hmem⟩

/-- No constraint is left. -/
theorem not_hasConstraint_dropConstraints (cs : List Char) : ¬HasConstraint (dropConstraints cs) := by
  fun_induction dropConstraints cs with
  | case1 => exact not_hasConstraint_nil
  | case2 cs name rest h _ ih =>
    obtain ⟨before, constraint, rfl, hb, hc, -, rfl⟩ := constrained?_eq_some h
    exact fun hh => ih (hasConstraint_of_name (hb.sublist trim_sublist) (fun hm => hc (trim_sublist.subset hm)) hh)
  | case3 cs hnone ih =>
    intro hh
    rcases hasConstraint_cons.1 hh with ⟨-, hs⟩ | hh
    · have hsome := isSome_constrained?_iff.2 (startsConstraint_of_dropConstraints hs)
      rw [hnone] at hsome
      cases hsome
    · exact ih hh
  | case4 c cs hne ih =>
    intro hh
    exact ih ((hasConstraint_cons.1 hh).resolve_left fun hb => hne hb.1)

/-- A text without constraints stays as it is. -/
theorem dropConstraints_eq_self {cs : List Char} (h : ¬HasConstraint cs) : dropConstraints cs = cs := by
  fun_induction dropConstraints cs with
  | case1 => rfl
  | case2 cs name rest hs _ ih =>
    exact absurd (hasConstraint_cons.2 (.inl ⟨rfl, isSome_constrained?_iff.1 (by rw [hs]; rfl)⟩)) h
  | case3 cs _ ih => rw [ih fun hh => h (hasConstraint_cons.2 (.inr hh))]
  | case4 c cs _ ih => rw [ih fun hh => h (hasConstraint_cons.2 (.inr hh))]

/-! ## Slashes -/

theorem head?_collapseSlashes (cs : List Char) : (collapseSlashes cs).head? = cs.head? := by
  fun_induction collapseSlashes cs with
  | case1 cs ih => exact ih
  | case2 => rfl
  | case3 => rfl

theorem getLast?_collapseSlashes (cs : List Char) : (collapseSlashes cs).getLast? = cs.getLast? := by
  fun_induction collapseSlashes cs with
  | case1 cs ih => rw [ih, List.getLast?_cons_cons]
  | case2 c cs _ ih => rw [List.getLast?_cons, List.getLast?_cons, ih]
  | case3 => rfl

theorem mem_collapseSlashes {c : Char} {cs : List Char} : c ∈ collapseSlashes cs ↔ c ∈ cs := by
  fun_induction collapseSlashes cs with
  | case1 cs ih => rw [ih]; simp
  | case2 d cs _ ih => rw [List.mem_cons, List.mem_cons, ih]
  | case3 => rfl

/-- No two slashes are left in a row. -/
theorem not_doubled_collapseSlashes (cs : List Char) : ¬['/', '/'] <:+: collapseSlashes cs := by
  fun_induction collapseSlashes cs with
  | case1 cs ih => exact ih
  | case2 c cs hne ih =>
    rw [List.infix_cons_iff]
    rintro (⟨more, he⟩ | h)
    · obtain ⟨rfl, -⟩ := List.cons.inj he
      have hhead := head?_collapseSlashes cs
      rw [← (List.cons.inj he).2] at hhead
      cases cs with
      | nil => cases hhead
      | cons d cs =>
        cases hhead
        exact hne cs rfl rfl
    · exact ih h
  | case3 => simp

theorem collapseSlashes_eq_self {cs : List Char} (h : ¬['/', '/'] <:+: cs) : collapseSlashes cs = cs := by
  fun_induction collapseSlashes cs with
  | case1 cs ih => exact absurd ⟨[], cs, rfl⟩ h
  | case2 c cs _ ih => rw [ih fun hi => h (List.infix_cons hi)]
  | case3 => rfl

/-- Another character stands between the same texts before and after. -/
theorem collapseSlashes_eq_append {c : Char} (hne : c ≠ '/') {cs a b : List Char}
    (h : collapseSlashes cs = a ++ c :: b) :
    ∃ a' b', cs = a' ++ c :: b' ∧ collapseSlashes a' = a ∧ collapseSlashes b' = b := by
  fun_induction collapseSlashes cs generalizing a with
  | case1 cs ih =>
    obtain ⟨a', b', he, ha, hb⟩ := ih h
    cases a' with
    | nil => exact absurd (List.cons.inj he).1.symm hne
    | cons d a' =>
      obtain ⟨rfl, rfl⟩ := List.cons.inj he
      exact ⟨'/' :: '/' :: a', b', rfl, ha, hb⟩
  | case2 d cs hd ih =>
    cases a with
    | nil =>
      obtain ⟨rfl, rfl⟩ := List.cons.inj h
      exact ⟨[], cs, rfl, rfl, rfl⟩
    | cons e a =>
      obtain ⟨rfl, he⟩ := List.cons.inj h
      obtain ⟨a', b', rfl, rfl, hb⟩ := ih he
      refine ⟨d :: a', b', rfl, ?_, hb⟩
      rw [collapseSlashes]
      rintro ds rfl rfl
      exact hd _ rfl rfl
  | case3 => simp at h

theorem hasConstraint_of_collapseSlashes {cs : List Char} (h : HasConstraint (collapseSlashes cs)) :
    HasConstraint cs := by
  obtain ⟨pre, inner, he, text, post, rfl, ht, hmem⟩ := h
  obtain ⟨pre', inner', rfl, -, he⟩ := collapseSlashes_eq_append (by decide) he
  obtain ⟨text', post', rfl, rfl, -⟩ := collapseSlashes_eq_append (by decide) he
  exact ⟨pre', _, rfl, text', post', rfl, fun c hc => ht c (mem_collapseSlashes.2 hc), mem_collapseSlashes.1 hmem⟩

/-! ## Clean texts -/

/-- A clean text: no control characters, no blanks at its ends, no constraints and no doubled slashes. -/
structure IsClean (cs : List Char) : Prop where
  printable : ∀ c ∈ cs, isControl c = false
  head : ∀ c ∈ cs.head?, isBlank c = false
  last : ∀ c ∈ cs.getLast?, isBlank c = false
  unconstrained : ¬HasConstraint cs
  spaced : ¬['/', '/'] <:+: cs

theorem cleanChars_sublist (cs : List Char) : (cleanChars cs).Sublist (cs.filter fun c => !isControl c) :=
  ((collapseSlashes_sublist _).trans (dropConstraints_sublist _)).trans trim_sublist

/-- Cleaning a text makes it clean. -/
theorem isClean_cleanChars (cs : List Char) : IsClean (cleanChars cs) where
  printable c hc := by
    have hkept := List.mem_filter.1 ((cleanChars_sublist cs).subset hc)
    simpa using hkept.2
  head c hc := by
    unfold cleanChars at hc
    rw [head?_collapseSlashes, head?_dropConstraints] at hc
    exact not_blank_head_trim c hc
  last c hc := by
    unfold cleanChars at hc
    rw [getLast?_collapseSlashes, getLast?_dropConstraints] at hc
    exact not_blank_last_trim c hc
  unconstrained h := not_hasConstraint_dropConstraints _ (hasConstraint_of_collapseSlashes h)
  spaced := not_doubled_collapseSlashes _

/-- Cleaning leaves a clean text as it is. -/
theorem IsClean.cleanChars_eq {cs : List Char} (h : IsClean cs) : cleanChars cs = cs := by
  have hkept : (cs.filter fun c => !isControl c) = cs :=
    List.filter_eq_self.2 fun c hc => by simp [h.printable c hc]
  rw [cleanChars, hkept, trim_eq_self h.head h.last, dropConstraints_eq_self h.unconstrained,
    collapseSlashes_eq_self h.spaced]

theorem isClean_clean (template : String) : IsClean (clean template).toList := by
  rw [clean, String.toList_ofList]
  exact isClean_cleanChars _

/-- The clean texts are those that cleaning leaves as they are. -/
theorem clean_eq_self_iff {template : String} : clean template = template ↔ IsClean template.toList := by
  constructor
  · intro h
    have hc := isClean_clean template
    rwa [h] at hc
  · intro h
    rw [clean, h.cleanChars_eq, String.ofList_toList]

/-- Cleaning a template again changes nothing. -/
theorem clean_clean (template : String) : clean (clean template) = clean template :=
  clean_eq_self_iff.2 (isClean_clean template)

/-- Cleaning computes a normal form: the clean text of a template, which is the template itself exactly if that is
clean already. -/
theorem clean_normalizes (template : String) :
    IsClean (clean template).toList ∧ clean (clean template) = clean template ∧
    (clean template = template ↔ IsClean template.toList) :=
  ⟨isClean_clean template, clean_clean template, clean_eq_self_iff⟩

/-- Braces that do not match, a constraint between them, and doubled slashes. -/
example : clean " \t//{ a : x{ }/{b:c}//} " = "/{ a : x{ }/{b}/}" := by
  decide +kernel

end ResourceClient.Template
