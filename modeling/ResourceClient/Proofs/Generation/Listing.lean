/-
The sources of a folder: whatever the order of its entries, they are listed by the bytes of their file
names, each source once. Of the sources of one name the first counts and the later ones are duplicates;
together these are all sources, in the order of the listing.
-/
import ResourceClient.Generation.Sources
import Mathlib.Data.List.Nodup

namespace ResourceClient

/-! ## Paths in a folder -/

/-- Names without slashes lead to different paths in a folder. -/
theorem Path.join_injective {folder a b : String} (ha : '/' ∉ a.toList) (hb : '/' ∉ b.toList)
    (h : join folder a = join folder b) : a = b := by
  have relative : ∀ {n : String}, '/' ∉ n.toList → isAbsolute n = false := by
    intro n hn
    unfold isAbsolute
    cases hc : n.toList with
    | nil => rfl
    | cons c cs =>
      rw [hc] at hn
      have hne : c ≠ '/' := fun e => hn (e ▸ List.mem_cons_self)
      simpa using hne
  unfold join at h
  simp only [relative ha, relative hb, Bool.false_eq_true, ↓reduceIte] at h
  -- both names are put behind the same beginning
  split at h <;> simpa using h

namespace SourceFile

/-! ## The listing -/

/-- The source of a name in a folder. -/
def ofName (folder name : String) : SourceFile :=
  ⟨TypeScript.endpointName (Path.join folder name), Path.join folder name⟩

/-- The names of the sources among the entries of a folder, in their order. -/
def sourceNames (c : Config) (entries : List Entry) : List String :=
  ((entries.mergeSort fun a b => a.name ≤ b.name).filter (isSource c)).map (·.name)

theorem ofEntries_eq (c : Config) (folder : String) (entries : List Entry) :
    ofEntries c folder entries = (sourceNames c entries).map (ofName folder) := by
  unfold ofEntries sourceNames ofName
  rw [List.map_map]
  rfl

theorem mem_sourceNames {c : Config} {entries : List Entry} {name : String} :
    name ∈ sourceNames c entries ↔
      ⟨name, true⟩ ∈ entries ∧ name.toList.head? ≠ some '.' ∧ c.accepts name = true := by
  unfold sourceNames
  simp only [List.mem_map, List.mem_filter, List.mem_mergeSort, isSource, Bool.and_eq_true, bne_iff_ne]
  constructor
  · rintro ⟨⟨name, isFile⟩, ⟨he, ⟨hf, hh⟩, ha⟩, rfl⟩
    simp only at hf
    subst hf
    exact ⟨he, hh, ha⟩
  · rintro ⟨he, hh, ha⟩
    exact ⟨_, ⟨he, ⟨rfl, hh⟩, ha⟩, rfl⟩

theorem sourceNames_pairwise {c : Config} {entries : List Entry} (h : (entries.map (·.name)).Nodup) :
    (sourceNames c entries).Pairwise (· < ·) := by
  have hle : (entries.mergeSort fun a b => a.name ≤ b.name).Pairwise (fun a b => a.name ≤ b.name) := by
    refine (List.pairwise_mergeSort ?_ ?_ entries).imp fun h => by simpa using h
    · intro a b c hab hbc
      simp only [decide_eq_true_eq] at *
      exact String.le_trans hab hbc
    · intro a b
      simpa using String.le_total a.name b.name
  have hne : (entries.mergeSort fun a b => a.name ≤ b.name).Pairwise (fun a b => a.name ≠ b.name) := by
    refine List.pairwise_map.1 (?_ : ((entries.mergeSort _).map Entry.name).Nodup)
    exact (((List.mergeSort_perm entries _).map Entry.name).nodup_iff).2 h
  unfold sourceNames
  rw [List.pairwise_map]
  refine List.Pairwise.filter _ ((hle.and hne).imp fun h => ?_)
  exact Std.lt_of_le_of_ne h.1 h.2

/-- Distinct names without slashes give sources with distinct paths. -/
theorem nodup_paths {folder : String} {names : List String} (hn : names.Nodup)
    (hs : ∀ n ∈ names, '/' ∉ n.toList) : ((names.map (ofName folder)).map (·.path)).Nodup := by
  rw [List.map_map]
  refine List.Nodup.map_on (fun a ha b hb h => ?_) hn
  exact Path.join_injective (hs a ha) (hs b hb) h

/-! ## First and later sources of a name -/

section

variable {seen ss : List SourceFile} {s first : SourceFile}

theorem find?_name_eq_none {name : String} : seen.find? (·.name == name) = none ↔ ∀ t ∈ seen, t.name ≠ name := by
  simp [List.find?_eq_none]

theorem find?_name_eq_some {name : String} (h : seen.find? (·.name == name) = some first) :
    first ∈ seen ∧ first.name = name :=
  ⟨List.mem_of_find?_eq_some h, by simpa using List.find?_some h⟩

/-- In a list of distinct names a source is found by its name. -/
theorem find?_name_of_mem (hn : (seen.map (·.name)).Nodup) (h : s ∈ seen) :
    seen.find? (·.name == s.name) = some s := by
  rcases hf : seen.find? (·.name == s.name) with _ | t
  · exact absurd rfl (find?_name_eq_none.1 hf s h)
  · obtain ⟨ht, hts⟩ := find?_name_eq_some hf
    have hst : t = s := List.inj_on_of_nodup_map hn ht h hts
    rw [hf, hst]

theorem distinct_cons_new (h : seen.find? (·.name == s.name) = none) :
    distinct seen (s :: ss) = s :: distinct (s :: seen) ss := by
  have : seen.any (·.name == s.name) = false := by simpa using find?_name_eq_none.1 h
  simp [distinct, this]

theorem distinct_cons_seen (h : seen.find? (·.name == s.name) = some first) :
    distinct seen (s :: ss) = distinct seen ss := by
  have : seen.any (·.name == s.name) = true :=
    List.any_eq_true.2 ⟨first, List.mem_of_find?_eq_some h, by simpa using (find?_name_eq_some h).2⟩
  simp [distinct, this]

theorem duplicates_cons_new (h : seen.find? (·.name == s.name) = none) :
    duplicates seen (s :: ss) = duplicates (s :: seen) ss := by
  simp [duplicates, h]

theorem duplicates_cons_seen (h : seen.find? (·.name == s.name) = some first) :
    duplicates seen (s :: ss) = (s, first) :: duplicates seen ss := by
  simp [duplicates, h]

end

theorem distinct_sublist (seen ss : List SourceFile) : (distinct seen ss).Sublist ss := by
  induction ss generalizing seen with
  | nil => exact List.Sublist.slnil
  | cons s ss ih =>
    rcases h : seen.find? (·.name == s.name) with _ | first
    · rw [distinct_cons_new h]
      exact (ih (s :: seen)).cons_cons s
    · rw [distinct_cons_seen h]
      exact (ih seen).cons s

theorem duplicates_sublist (seen ss : List SourceFile) : ((duplicates seen ss).map (·.1)).Sublist ss := by
  induction ss generalizing seen with
  | nil => exact List.Sublist.slnil
  | cons s ss ih =>
    rcases h : seen.find? (·.name == s.name) with _ | first
    · rw [duplicates_cons_new h]
      exact (ih (s :: seen)).cons s
    · rw [duplicates_cons_seen h]
      exact (ih seen).cons_cons s

/-- The sources that count and the later ones of their names are all sources, each as often as it is
listed. -/
theorem distinct_append_duplicates_perm (seen ss : List SourceFile) :
    (distinct seen ss ++ (duplicates seen ss).map (·.1)).Perm ss := by
  induction ss generalizing seen with
  | nil => exact List.Perm.nil
  | cons s ss ih =>
    rcases h : seen.find? (·.name == s.name) with _ | first
    · rw [distinct_cons_new h, duplicates_cons_new h]
      exact (ih (s :: seen)).cons s
    · rw [distinct_cons_seen h, duplicates_cons_seen h]
      exact List.perm_middle.trans ((ih seen).cons s)

/-- The sources that count have distinct names, none of them seen before. -/
theorem distinct_names (seen ss : List SourceFile) :
    ((distinct seen ss).map (·.name)).Nodup ∧ ∀ s ∈ distinct seen ss, ∀ t ∈ seen, t.name ≠ s.name := by
  induction ss generalizing seen with
  | nil => simp [distinct]
  | cons s ss ih =>
    rcases h : seen.find? (·.name == s.name) with _ | first
    · obtain ⟨h1, h2⟩ := ih (s :: seen)
      rw [distinct_cons_new h]
      refine ⟨List.nodup_cons.2 ⟨fun hm => ?_, h1⟩, fun t ht u hu => ?_⟩
      · obtain ⟨t, ht, hts⟩ := List.mem_map.1 hm
        exact h2 t ht s List.mem_cons_self hts.symm
      · rcases List.mem_cons.1 ht with rfl | ht
        · exact find?_name_eq_none.1 h u hu
        · exact h2 t ht u (List.mem_cons_of_mem _ hu)
    · rw [distinct_cons_seen h]
      exact ih seen

/-- The sources that count are those found by their own names, where none has been seen. -/
theorem mem_distinct_iff {s : SourceFile} {seen ss : List SourceFile} :
    s ∈ distinct seen ss ↔ seen.find? (·.name == s.name) = none ∧ ss.find? (·.name == s.name) = some s := by
  induction ss generalizing seen with
  | nil => simp [distinct]
  | cons x ss ih =>
    rcases hx : seen.find? (·.name == x.name) with _ | first
    · rw [distinct_cons_new hx, List.mem_cons, ih]
      by_cases hxs : x.name = s.name
      · rw [List.find?_cons_of_pos (by simpa using hxs), List.find?_cons_of_pos (by simpa using hxs)]
        constructor
        · rintro (rfl | ⟨h, -⟩)
          · exact ⟨hx, rfl⟩
          · cases h
        · rintro ⟨-, h⟩
          exact .inl (Option.some.inj h).symm
      · have hne : s ≠ x := fun h => hxs (by rw [h])
        rw [List.find?_cons_of_neg (by simpa using hxs), List.find?_cons_of_neg (by simpa using hxs)]
        simp only [hne, false_or]
    · rw [distinct_cons_seen hx, ih]
      by_cases hxs : x.name = s.name
      · rw [← hxs, hx]
        simp only [reduceCtorEq, false_and]
      · rw [List.find?_cons_of_neg (by simpa using hxs)]

/-- A source is a duplicate iff its name has been seen or is that of a source listed before it. -/
theorem mem_duplicates_iff {s : SourceFile} {seen ss : List SourceFile} :
    s ∈ (duplicates seen ss).map (·.1) ↔
      ∃ before after, ss = before ++ s :: after ∧ ∃ t ∈ seen ++ before, t.name = s.name := by
  induction ss generalizing seen with
  | nil => simp [duplicates]
  | cons x ss ih =>
    have hcons : (∃ before after, x :: ss = before ++ s :: after ∧ ∃ t ∈ seen ++ before, t.name = s.name) ↔
        (x = s ∧ ∃ t ∈ seen, t.name = s.name) ∨
        ∃ before after, ss = before ++ s :: after ∧ ∃ t ∈ x :: seen ++ before, t.name = s.name := by
      constructor
      · rintro ⟨before, after, h, t, ht, hts⟩
        cases before with
        | nil =>
          cases h
          exact .inl ⟨rfl, t, by simpa using ht, hts⟩
        | cons y before =>
          cases h
          exact .inr ⟨before, after, rfl, t, by simp at ht ⊢; tauto, hts⟩
      · rintro (⟨rfl, t, ht, hts⟩ | ⟨before, after, rfl, t, ht, hts⟩)
        · exact ⟨[], ss, rfl, t, by simpa using ht, hts⟩
        · exact ⟨x :: before, after, rfl, t, by simp at ht ⊢; tauto, hts⟩
    rw [hcons]
    rcases h : seen.find? (·.name == x.name) with _ | first
    · rw [duplicates_cons_new h, ih]
      constructor
      · exact .inr
      · rintro (⟨rfl, t, ht, hts⟩ | h)
        · exact absurd hts (find?_name_eq_none.1 h t ht)
        · exact h
    · obtain ⟨hfirst, hname⟩ := find?_name_eq_some h
      rw [duplicates_cons_seen h, List.map_cons, List.mem_cons, ih]
      constructor
      · rintro (rfl | ⟨before, after, rfl, t, ht, hts⟩)
        · exact .inl ⟨rfl, first, hfirst, hname⟩
        · exact .inr ⟨before, after, rfl, t, List.mem_cons_of_mem _ ht, hts⟩
      · rintro (⟨rfl, -⟩ | ⟨before, after, rfl, t, ht, hts⟩)
        · exact .inl rfl
        · -- the duplicate `x` bears a name that has been seen
          rcases List.mem_cons.1 ht with rfl | ht
          · exact .inr ⟨before, after, rfl, first, List.mem_append_left _ hfirst, hname.trans hts⟩
          · exact .inr ⟨before, after, rfl, t, ht, hts⟩

/-- A duplicate is reported with the first source of its name. -/
theorem find?_of_mem_duplicates {seen ss : List SourceFile} (hn : (seen.map (·.name)).Nodup)
    {d : SourceFile × SourceFile} (hd : d ∈ duplicates seen ss) :
    (seen.reverse ++ ss).find? (·.name == d.1.name) = some d.2 := by
  induction ss generalizing seen with
  | nil => cases hd
  | cons x ss ih =>
    rcases h : seen.find? (·.name == x.name) with _ | first
    · rw [duplicates_cons_new h] at hd
      have hn' : ((x :: seen).map (·.name)).Nodup := by
        refine List.nodup_cons.2 ⟨fun hm => ?_, hn⟩
        obtain ⟨t, ht, hts⟩ := List.mem_map.1 hm
        exact find?_name_eq_none.1 h t ht hts
      simpa using ih hn' hd
    · obtain ⟨hfirst, hname⟩ := find?_name_eq_some h
      -- the names seen are distinct, so the search finds the same source from either end
      have hrev : seen.reverse.find? (·.name == first.name) = some first :=
        find?_name_of_mem (by rwa [List.map_reverse, List.nodup_reverse]) (List.mem_reverse.2 hfirst)
      rw [duplicates_cons_seen h] at hd
      rcases List.mem_cons.1 hd with rfl | hd
      · rw [List.find?_append, ← hname, hrev]
        rfl
      · have hih := ih hn hd
        rw [List.find?_append] at hih ⊢
        by_cases hx : x.name = d.1.name
        · rw [← hx, ← hname, hrev] at hih ⊢
          exact hih
        · rw [List.find?_cons_of_neg (by simpa using hx)]
          exact hih

end SourceFile

end ResourceClient
