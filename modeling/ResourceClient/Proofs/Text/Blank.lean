/-
Trimming: what stands between the first and the last character that is not blank is kept, and the blanks
around it are not.
-/
import ResourceClient.Text.Blank
import Mathlib.Data.List.TakeWhile

namespace ResourceClient.Text

/-- A text of blanks only. -/
def Blank (cs : List Char) : Prop :=
  ∀ c ∈ cs, isBlank c = true

variable {p : Char → Bool} {c : Char} {a b : List Char}

theorem dropWhile_append_cons (h : p c = false) : (a ++ c :: b).dropWhile p = a.dropWhile p ++ c :: b := by
  induction a with
  | nil => rw [List.nil_append, List.dropWhile_cons_of_neg (by simp [h])]; rfl
  | cons d a ih =>
    by_cases hd : p d = true
    · rw [List.cons_append, List.dropWhile_cons_of_pos hd, List.dropWhile_cons_of_pos hd, ih]
    · rw [List.cons_append, List.dropWhile_cons_of_neg hd, List.dropWhile_cons_of_neg hd, List.cons_append]

theorem takeWhile_append_cons (ha : ∀ d ∈ a, p d = true) (h : p c = false) :
    (a ++ c :: b).takeWhile p = a := by
  rw [List.takeWhile_append_of_pos ha, List.takeWhile_cons_of_neg (by simp [h]), List.append_nil]

theorem dropWhile_append_cons_of_all (ha : ∀ d ∈ a, p d = true) (h : p c = false) :
    (a ++ c :: b).dropWhile p = c :: b := by
  rw [List.dropWhile_append_of_pos ha, List.dropWhile_cons_of_neg (by simp [h])]

theorem dropEndWhile_append_cons (h : p c = false) :
    dropEndWhile p (a ++ c :: b) = a ++ c :: dropEndWhile p b := by
  unfold dropEndWhile
  have hr : (a ++ c :: b).reverse = b.reverse ++ c :: a.reverse := by simp
  rw [hr, dropWhile_append_cons h]
  simp

theorem dropEndWhile_append_of_all (hb : ∀ d ∈ b, p d = true) : dropEndWhile p (a ++ b) = dropEndWhile p a := by
  unfold dropEndWhile
  rw [List.reverse_append, List.dropWhile_append_of_pos (fun d hd => hb d (List.mem_reverse.1 hd))]

theorem dropEndWhile_sublist : (dropEndWhile p a).Sublist a := by
  unfold dropEndWhile
  have h := (List.dropWhile_sublist p (l := a.reverse)).reverse
  rwa [List.reverse_reverse] at h

theorem trim_append_cons (h : isBlank c = false) :
    trim (a ++ c :: b) = a.dropWhile isBlank ++ c :: dropEndWhile isBlank b := by
  unfold trim
  rw [dropWhile_append_cons h, dropEndWhile_append_cons h]

theorem trim_sublist : (trim a).Sublist a :=
  dropEndWhile_sublist.trans (List.dropWhile_sublist _)

/-- Dropping what satisfies `p` leaves a text in which nothing does. -/
theorem dropWhile_of_none (ha : ∀ d ∈ a, p d = false) : a.dropWhile p = a := by
  cases a with
  | nil => rfl
  | cons d a => exact List.dropWhile_cons_of_neg (by simp [ha d])

theorem dropEndWhile_of_none (ha : ∀ d ∈ a, p d = false) : dropEndWhile p a = a := by
  unfold dropEndWhile
  rw [dropWhile_of_none fun d hd => ha d (List.mem_reverse.1 hd), List.reverse_reverse]

/-- Trimming takes away the blanks around a word. -/
theorem trim_word {word : List Char} (ha : Blank a) (hw : ∀ d ∈ word, isBlank d = false) (hb : Blank b)
    (hne : word ≠ []) : trim (a ++ word ++ b) = word := by
  obtain ⟨d, word, rfl⟩ := List.exists_cons_of_ne_nil hne
  have hd : isBlank d = false := hw d List.mem_cons_self
  unfold trim
  rw [List.append_assoc, List.cons_append, dropWhile_append_cons_of_all ha hd, ← List.cons_append,
    dropEndWhile_append_of_all hb, dropEndWhile_of_none hw]

end ResourceClient.Text
