/-
The attributes of an element: a map from keys to values in the order of its keys. Writing a key again
replaces its value.
-/
namespace ResourceClient.Markup

/-- A map whose keys ascend, so that equal maps are equal values. -/
structure Attributes where
  entries : List (String × String)
  sorted : entries.Pairwise (·.1 < ·.1) := by simp
  deriving DecidableEq, Repr

namespace Attributes

theorem ext {a b : Attributes} (h : a.entries = b.entries) : a = b := by
  cases a; cases b; cases h; rfl

def empty : Attributes := ⟨[], by simp⟩

instance : Inhabited Attributes := ⟨empty⟩

instance : EmptyCollection Attributes := ⟨empty⟩

/-- The value of a key. -/
def get? (a : Attributes) (key : String) : Option String :=
  a.entries.lookup key

/-- Puts an entry into its place in a list of entries. -/
def insertEntry (key value : String) : List (String × String) → List (String × String)
  | [] => [(key, value)]
  | (k, v) :: es =>
    if key < k then (key, value) :: (k, v) :: es
    else if key = k then (key, value) :: es
    else (k, v) :: insertEntry key value es

theorem mem_insertEntry {key value : String} {es : List (String × String)} {e : String × String}
    (h : e ∈ insertEntry key value es) : e = (key, value) ∨ e ∈ es := by
  induction es with
  | nil => simpa [insertEntry] using h
  | cons p es ih =>
    obtain ⟨k, v⟩ := p
    unfold insertEntry at h
    split at h
    · simpa using h
    · split at h
      · rcases List.mem_cons.1 h with h | h
        · exact .inl h
        · exact .inr (List.mem_cons_of_mem _ h)
      · rcases List.mem_cons.1 h with h | h
        · exact .inr (h ▸ List.mem_cons_self)
        · exact (ih h).imp_right (List.mem_cons_of_mem _)

theorem insertEntry_sorted {es : List (String × String)} (key value : String)
    (h : es.Pairwise (·.1 < ·.1)) : (insertEntry key value es).Pairwise (·.1 < ·.1) := by
  induction es with
  | nil => simp [insertEntry]
  | cons p es ih =>
    obtain ⟨k, v⟩ := p
    obtain ⟨h1, h2⟩ := List.pairwise_cons.1 h
    unfold insertEntry
    split
    · rename_i lt
      refine List.pairwise_cons.2 ⟨fun e he => ?_, h⟩
      rcases List.mem_cons.1 he with rfl | he
      · exact lt
      · exact String.lt_trans lt (h1 e he)
    · rename_i nlt
      split
      · rename_i eq
        exact List.pairwise_cons.2 ⟨fun e he => eq ▸ h1 e he, h2⟩
      · rename_i ne
        refine List.pairwise_cons.2 ⟨fun e he => ?_, ih h2⟩
        rcases mem_insertEntry he with rfl | he
        · exact Std.lt_of_le_of_ne (Std.not_lt.1 nlt) (Ne.symm ne)
        · exact h1 e he

/-- The map with a key set to a value. -/
def insert (a : Attributes) (key value : String) : Attributes :=
  ⟨insertEntry key value a.entries, insertEntry_sorted key value a.sorted⟩

theorem lookup_entry (key k value : String) (es : List (String × String)) :
    ((k, value) :: es).lookup key = if key = k then some value else es.lookup key := by
  by_cases h : key = k
  · simp [h]
  · simp [List.lookup_cons, beq_eq_false_iff_ne.2 h, h]

theorem lookup_insertEntry (key k value : String) (es : List (String × String)) :
    (insertEntry k value es).lookup key = if key = k then some value else es.lookup key := by
  induction es with
  | nil => exact lookup_entry key k value []
  | cons e es ih =>
    obtain ⟨k', v⟩ := e
    unfold insertEntry
    split
    · exact lookup_entry key k value _
    · split
      · rename_i eq
        subst eq
        simp only [lookup_entry]
        split <;> rfl
      · rename_i ne
        simp only [lookup_entry, ih]
        by_cases h : key = k
        · subst h
          simp [ne]
        · simp [h]

/-- A key has the value it was last set to; other keys keep theirs. -/
@[simp] theorem get?_insert (a : Attributes) (key k value : String) :
    (a.insert k value).get? key = if key = k then some value else a.get? key :=
  lookup_insertEntry key k value a.entries

/-- The map of a list of entries, of which later ones win. -/
def ofList (es : List (String × String)) : Attributes :=
  es.foldl (fun a e => a.insert e.1 e.2) empty

theorem get?_foldl_insert (key : String) (es : List (String × String)) (a : Attributes) :
    (es.foldl (fun a e => a.insert e.1 e.2) a).get? key = (es.reverse.lookup key).or (a.get? key) := by
  induction es generalizing a with
  | nil => rfl
  | cons e es ih =>
    rw [List.foldl_cons, ih, get?_insert, List.reverse_cons, List.lookup_append, Option.or_assoc,
      lookup_entry key e.1 e.2 []]
    by_cases h : key = e.1 <;> simp [h]

/-- A key has the value of the last entry for it. -/
theorem get?_ofList (es : List (String × String)) (key : String) :
    (ofList es).get? key = es.reverse.lookup key := by
  have hempty : empty.get? key = none := rfl
  rw [ofList, get?_foldl_insert, hempty, Option.or_none]

end Attributes

end ResourceClient.Markup
