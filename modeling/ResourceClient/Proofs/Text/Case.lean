/-
Case conversion on ASCII letters: there the full lower case is the folding of letters, one character for one.
-/
import ResourceClient.Proofs.Text.Ascii
import ResourceClient.Text.Case

namespace ResourceClient.Text

/-- Folding makes a lower letter of this letter and its capital only. -/
theorem toNat_of_isLower_toLower {c : Char} (h : c.toLower.isLower = true) : c.toNat < 128 := by
  unfold Char.toLower at h
  split at h
  · rename_i hu
    have hc := hu.2
    rw [UInt32.le_iff_toNat_le] at hc
    exact Nat.lt_of_le_of_lt hc (by decide)
  · have hc := (isLower_iff.1 h).2
    omega

theorem lowerChar_of_isLower_toLower {c : Char} (h : c.toLower.isLower = true) : lowerChar c = [c.toLower] := by
  refine of_ascii (p := fun d => d.toLower.isLower = true → lowerChar d = [d.toLower]) ?_ (toNat_of_isLower_toLower h) h
  decide +kernel

theorem lowerAfter_eq_foldChars {before cs : List Char} (h : (foldChars cs).all Char.isLower = true) :
    lowerAfter before cs = foldChars cs := by
  induction cs generalizing before with
  | nil => rfl
  | cons c cs ih =>
    rw [foldChars, List.map_cons, List.all_cons, Bool.and_eq_true] at h
    have hsigma : c ≠ 'Σ' := ne_of_class (p := fun d => d.toLower.isLower) h.1 (by decide)
    rw [lowerAfter, if_neg hsigma, lowerChar_of_isLower_toLower h.1, ih h.2]
    rfl

/-- The lower case of a text that folds to lower letters is what it folds to. -/
theorem lower_eq_fold {s : String} (h : (fold s).toList.all Char.isLower = true) : lower s = fold s := by
  unfold fold at h
  rw [String.toList_ofList] at h
  rw [lower, lowerAfter_eq_foldChars h, fold]

end ResourceClient.Text
