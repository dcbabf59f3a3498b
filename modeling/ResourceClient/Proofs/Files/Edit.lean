/-
What changes when one entry of a tree does. Writing and erasing a place leave every other place as it is,
however the entries of the folders are ordered; a place above keeps being a folder.
-/
import ResourceClient.Files.Tree
import Mathlib.Data.List.Basic

namespace ResourceClient.FileTree

variable {t t' u : FileTree} {names place : List String} {name : String} {entries : List (String × FileTree)}

/-! ## Places -/

@[simp] theorem at?_nil (t : FileTree) : t.at? [] = some t := by
  cases t <;> rfl

@[simp] theorem at?_folder_cons (entries : List (String × FileTree)) (name : String) (names : List String) :
    (folder entries).at? (name :: names) = (entries.lookup name).bind fun u => u.at? names :=
  rfl

/-- Whether a folder stands at a place. -/
def IsFolderAt (t : FileTree) (place : List String) : Prop :=
  ∃ entries, t.at? place = some (folder entries)

theorem not_isFolderAt_of_none (h : t.at? place = none) : ¬t.IsFolderAt place := by
  rintro ⟨entries, he⟩
  rw [h] at he
  cases he

theorem not_isFolderAt_of_file {content : ByteArray} (h : t.at? place = some (file content)) :
    ¬t.IsFolderAt place := by
  rintro ⟨entries, he⟩
  rw [h] at he
  cases he

/-- A tree without symbolic links. -/
def LinkFree (t : FileTree) : Prop :=
  ∀ place target, t.at? place ≠ some (link target)

theorem at?_append (t : FileTree) (a b : List String) : t.at? (a ++ b) = (t.at? a).bind fun u => u.at? b := by
  induction a generalizing t with
  | nil => rw [List.nil_append, at?_nil, Option.bind_some]
  | cons name names ih =>
    cases t with
    | file _ => rfl
    | link _ => rfl
    | folder entries =>
      rw [List.cons_append, at?_folder_cons, at?_folder_cons]
      cases entries.lookup name with
      | none => rfl
      | some u => exact ih u

/-- What lies in something lies in a folder. -/
theorem isFolderAt_of_at?_append (h : t.at? (place ++ name :: names) = some u) : t.IsFolderAt place := by
  rw [at?_append] at h
  cases hv : t.at? place with
  | none => rw [hv] at h; cases h
  | some v =>
    rw [hv] at h
    cases v with
    | file _ => cases h
    | link _ => cases h
    | folder entries => exact ⟨entries, hv⟩

theorem IsFolderAt.dropLast (h : t.IsFolderAt place) : t.IsFolderAt place.dropLast := by
  rcases List.eq_nil_or_concat place with rfl | ⟨above, name, rfl⟩
  · exact h
  · obtain ⟨entries, h⟩ := h
    rw [List.concat_eq_append] at *
    rw [List.dropLast_concat]
    exact isFolderAt_of_at?_append h

theorem linkFree_file (content : ByteArray) : (file content).LinkFree := by
  intro place target h
  cases place <;> cases h

theorem linkFree_empty : empty.LinkFree := by
  intro place target h
  cases place <;> cases h

theorem linkFree_folder_iff :
    (folder entries).LinkFree ↔ ∀ name u, entries.lookup name = some u → u.LinkFree := by
  constructor
  · intro h name u hu place target hl
    refine h (name :: place) target ?_
    rw [at?_folder_cons, hu]
    exact hl
  · intro h place target hl
    cases place with
    | nil => cases hl
    | cons name names =>
      rw [at?_folder_cons] at hl
      obtain ⟨u, hu, hl⟩ := Option.bind_eq_some_iff.1 hl
      exact h name u hu names target hl

/-- Neither of two places lies in the other. -/
def Apart (a b : List String) : Prop :=
  ¬a <+: b ∧ ¬b <+: a

theorem Apart.symm {a b : List String} (h : Apart a b) : Apart b a :=
  ⟨h.2, h.1⟩

/-- Different entries of a folder lie apart. -/
theorem apart_entries {a b : String} (h : a ≠ b) (folder : List String) : Apart (folder ++ [a]) (folder ++ [b]) := by
  constructor
  · rw [List.prefix_append_right_inj]
    exact fun hp => h (List.cons_prefix_cons.1 hp).1
  · rw [List.prefix_append_right_inj]
    exact fun hp => h (List.cons_prefix_cons.1 hp).1.symm

/-! ## Trees that differ in one place -/

/-- `Edited found place t t'`: the tree `t'` is `t` with `found` at a place in an existing folder. -/
inductive Edited (found : Option FileTree) : List String → FileTree → FileTree → Prop
  | entry {name : String} {entries entries' : List (String × FileTree)} (self : entries'.lookup name = found)
    (others : ∀ k ≠ name, entries'.lookup k = entries.lookup k) :
    Edited found [name] (folder entries) (folder entries')
  | inside {name : String} {names : List String} {entries entries' : List (String × FileTree)} {u u' : FileTree}
    (self : entries.lookup name = some u) (self' : entries'.lookup name = some u')
    (others : ∀ k ≠ name, entries'.lookup k = entries.lookup k) (below : Edited found names u u') :
    Edited found (name :: names) (folder entries) (folder entries')

namespace Edited

variable {found : Option FileTree}

theorem isFolder (h : Edited found place t t') : t'.IsFolderAt [] := by
  cases h <;> exact ⟨_, at?_nil _⟩

theorem at?_self (h : Edited found place t t') : t'.at? place = found := by
  induction h with
  | entry self _ => rw [at?_folder_cons, self]; cases found <;> simp
  | inside _ self' _ _ ih => rw [at?_folder_cons, self']; exact ih

/-- An edit is undone by putting back what was there. -/
theorem symm (h : Edited found place t t') : Edited (t.at? place) place t' t := by
  induction h with
  | @entry name entries _ _ others =>
    refine .entry ?_ fun k hk => (others k hk).symm
    rw [at?_folder_cons]
    cases entries.lookup name <;> simp
  | inside self self' others _ ih =>
    rw [at?_folder_cons, self, Option.bind_some]
    exact .inside self' self (fun k hk => (others k hk).symm) ih

/-- Places aside from the one that is edited stay as they are. -/
theorem at?_aside (h : Edited found place t t') {other : List String} (ha : Apart place other) :
    t'.at? other = t.at? other := by
  obtain ⟨h1, h2⟩ := ha
  induction h generalizing other with
  | @entry name _ _ _ others =>
    cases other with
    | nil => exact absurd List.nil_prefix h2
    | cons k names =>
      have hk : k ≠ name := by
        rintro rfl
        exact h1 (List.prefix_append [k] names)
      rw [at?_folder_cons, at?_folder_cons, others k hk]
  | @inside name _ _ _ _ _ self self' others _ ih =>
    cases other with
    | nil => exact absurd List.nil_prefix h2
    | cons k names =>
      rw [at?_folder_cons, at?_folder_cons]
      by_cases hk : k = name
      · subst hk
        rw [self, self']
        refine ih (fun h => h1 ?_) (fun h => h2 ?_)
        · exact List.cons_prefix_cons.2 ⟨rfl, h⟩
        · exact List.cons_prefix_cons.2 ⟨rfl, h⟩
      · rw [others k hk]

/-- Above the edited place are folders. -/
theorem isFolderAt_above (h : Edited found place t t') {above : List String} (ha : above <+: place)
    (hne : above ≠ place) : t'.IsFolderAt above := by
  induction h generalizing above with
  | @entry name _ _ _ _ =>
    cases above with
    | nil => exact ⟨_, at?_nil _⟩
    | cons k names =>
      obtain ⟨rfl, hn⟩ := List.cons_prefix_cons.1 ha
      rw [List.prefix_nil.1 hn] at hne
      exact absurd rfl hne
  | @inside name _ _ _ _ _ _ self' _ _ ih =>
    cases above with
    | nil => exact ⟨_, at?_nil _⟩
    | cons k names =>
      obtain ⟨rfl, hn⟩ := List.cons_prefix_cons.1 ha
      obtain ⟨entries, he⟩ := ih hn fun h => hne (by rw [h])
      exact ⟨entries, by rw [at?_folder_cons, self']; exact he⟩

/-- Folders stay folders when the edited place is none. -/
theorem isFolderAt (h : Edited found place t t') (hp : ¬t.IsFolderAt place) {other : List String}
    (ho : t.IsFolderAt other) : t'.IsFolderAt other := by
  by_cases h1 : place <+: other
  · obtain ⟨below, rfl⟩ := h1
    cases below with
    | nil => rw [List.append_nil] at ho; exact absurd ho hp
    | cons name names =>
      obtain ⟨entries, ho⟩ := ho
      exact absurd (isFolderAt_of_at?_append ho) hp
  · by_cases h2 : other <+: place
    · exact h.isFolderAt_above h2 fun he => h1 (he ▸ List.prefix_rfl)
    · obtain ⟨entries, ho⟩ := ho
      exact ⟨entries, by rw [h.at?_aside ⟨h1, h2⟩]; exact ho⟩

/-- An edited tree has no links when neither the tree nor what is put in has one. -/
theorem linkFree (h : Edited found place t t') (ht : t.LinkFree) (hf : ∀ u, found = some u → u.LinkFree) :
    t'.LinkFree := by
  induction h with
  | @entry name _ _ self others =>
    refine linkFree_folder_iff.2 fun k u hu => ?_
    by_cases hk : k = name
    · subst hk
      exact hf u (self.symm.trans hu)
    · rw [others k hk] at hu
      exact linkFree_folder_iff.1 ht k u hu
  | @inside name _ _ _ _ _ self self' others _ ih =>
    refine linkFree_folder_iff.2 fun k v hv => ?_
    by_cases hk : k = name
    · subst hk
      cases self'.symm.trans hv
      exact ih (linkFree_folder_iff.1 ht k _ self)
    · rw [others k hk] at hv
      exact linkFree_folder_iff.1 ht k v hv

end Edited

/-! ## Putting and erasing -/

theorem lookup_putEntry (name : String) (u : FileTree) (entries : List (String × FileTree)) :
    (putEntry name u entries).lookup name = some u := by
  induction entries with
  | nil => simp [putEntry]
  | cons e entries ih =>
    obtain ⟨k, v⟩ := e
    unfold putEntry
    split
    · rw [List.lookup_cons_self]
    · split
      · rw [List.lookup_cons_self]
      · rename_i hne
        rw [List.lookup_cons, beq_false_of_ne hne]
        exact ih

theorem lookup_putEntry_of_ne {k : String} (h : k ≠ name) (u : FileTree) (entries : List (String × FileTree)) :
    (putEntry name u entries).lookup k = entries.lookup k := by
  induction entries with
  | nil => simp [putEntry, h]
  | cons e entries ih =>
    obtain ⟨k', v⟩ := e
    unfold putEntry
    split
    · rw [List.lookup_cons, beq_false_of_ne h]
    · split
      · rename_i _ he
        subst he
        rw [List.lookup_cons, List.lookup_cons, beq_false_of_ne h]
      · rw [List.lookup_cons, List.lookup_cons, ih]

theorem lookup_filter_ne (name k : String) (entries : List (String × FileTree)) :
    (entries.filter (·.1 != name)).lookup k = if k = name then none else entries.lookup k := by
  induction entries with
  | nil => simp
  | cons e entries ih =>
    obtain ⟨k', v⟩ := e
    by_cases hk : k' = name
    · subst hk
      rw [List.filter_cons_of_neg (by simp), ih]
      split
      · rfl
      · rename_i hne
        rw [List.lookup_cons, beq_false_of_ne hne]
    · rw [List.filter_cons_of_pos (by simpa using hk), List.lookup_cons, List.lookup_cons, ih]
      by_cases hkk : k = k'
      · subst hkk
        simp only [beq_self_eq_true, if_neg hk]
      · rw [beq_false_of_ne hkk]

/-- A change that goes into the entry it finds on its way edits the place it goes to, if it edits an entry. -/
theorem edited_of_inside {change : List String → FileTree → FileTree} {found : Option FileTree} {name : String}
    (hentry : ∀ entries, Edited found [name] (folder entries) (change [name] (folder entries)))
    (hinside : ∀ k names entries u, names ≠ [] → entries.lookup k = some u →
      change (k :: names) (folder entries) = folder (putEntry k (change names u) entries))
    {above : List String} (h : t.IsFolderAt above) :
    Edited found (above ++ [name]) t (change (above ++ [name]) t) := by
  obtain ⟨es, h⟩ := h
  induction above generalizing t with
  | nil =>
    cases h
    exact hentry es
  | cons k above ih =>
    cases t with
    | file _ => cases h
    | link _ => cases h
    | folder entries =>
      rw [at?_folder_cons] at h
      obtain ⟨u, hu, h⟩ := Option.bind_eq_some_iff.1 h
      rw [List.cons_append, hinside k _ entries u (by simp) hu]
      exact .inside hu (lookup_putEntry ..) (fun k' hk => lookup_putEntry_of_ne hk ..) (ih h)

/-- Putting something into an existing folder edits its place. -/
theorem edited_put (new : FileTree) {above : List String} (name : String) (h : t.IsFolderAt above) :
    Edited (some new) (above ++ [name]) t (put new (above ++ [name]) t) := by
  refine edited_of_inside (fun entries => ?_) (fun k names entries u hn hu => ?_) h
  · exact .entry (lookup_putEntry name new entries) fun k hk => lookup_putEntry_of_ne hk new entries
  · obtain ⟨_, _, rfl⟩ := List.exists_cons_of_ne_nil hn
    simp only [put, hu]

/-- Erasing something in an existing folder edits its place. -/
theorem edited_erase {above : List String} (name : String) (h : t.IsFolderAt above) :
    Edited none (above ++ [name]) t (erase (above ++ [name]) t) := by
  refine edited_of_inside (fun entries => .entry ?_ fun k hk => ?_) (fun k names entries u hn hu => ?_) h
  · rw [lookup_filter_ne, if_pos rfl]
  · rw [lookup_filter_ne, if_neg hk]
  · obtain ⟨_, _, rfl⟩ := List.exists_cons_of_ne_nil hn
    simp only [erase, hu]

end ResourceClient.FileTree
