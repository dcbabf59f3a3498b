/-
Single lines of the generated texts: the lines a text is put together from are those it is cut into, when none
of them has a line break. Identifiers, literals and whatever is printable have none.
-/
import ResourceClient.Proofs.Source.Declarations
import ResourceClient.Proofs.Text.Quoted
import ResourceClient.TypeScript.Identifier
import ResourceClient.TypeScript.Shared

namespace ResourceClient.TypeScript

open Text

/-- A text without a line feed and without a carriage return. -/
def IsLine (s : String) : Prop :=
  ∀ c ∈ s.toList, c ≠ '\n' ∧ c ≠ '\r'

theorem isLine_append {s t : String} : IsLine (s ++ t) ↔ IsLine s ∧ IsLine t := by
  unfold IsLine
  rw [String.toList_append]
  exact List.forall_mem_append

/-- A fixed text is looked at as its list of characters, which unification finds for a literal. -/
theorem isLine_ofList {cs : List Char} (h : (cs.all fun c => c != '\n' && c != '\r') = true) :
    IsLine (String.ofList cs) := by
  rw [IsLine, String.toList_ofList]
  simpa using h

instance (s : String) : Decidable (IsLine s) :=
  decidable_of_iff ((s.toList.all fun c => c != '\n' && c != '\r') = true) (by simp [IsLine])

theorem isLine_of_isShaped {s : String} (h : isShaped s.toList = true) : IsLine s := by
  have hchar : ∀ c, isNameChar c = true → c ≠ '\n' ∧ c ≠ '\r' := fun c hc =>
    ⟨by rintro rfl; exact absurd hc (by decide), by rintro rfl; exact absurd hc (by decide)⟩
  intro c hc
  cases hs : s.toList with
  | nil => rw [hs] at hc; cases hc
  | cons d ds =>
    rw [hs, isShaped, Bool.and_eq_true] at h
    rw [hs] at hc
    rcases List.mem_cons.1 hc with rfl | hc
    · refine ⟨?_, ?_⟩ <;> rintro rfl <;> exact absurd h.1 (by decide)
    · exact hchar c (List.all_eq_true.1 h.2 c hc)

/-- Line breaks are among the characters that a literal escapes. -/
theorem isLine_encode (s : String) : IsLine (Quoted.encode s) := by
  intro d hd
  have hlow : 0x20 ≤ d.toNat := by
    rcases Quoted.mem_encode.1 hd with rfl | ⟨c, -, hc⟩
    · decide
    · exact (Quoted.of_mem_encodeChar hc).1
  exact ⟨by rintro rfl; exact absurd hlow (by decide), by rintro rfl; exact absurd hlow (by decide)⟩

/-! ## Lines put together -/

theorem unlines_append (a b : List String) : unlines (a ++ b) = unlines a ++ unlines b := by
  unfold unlines
  rw [List.map_append, String.join_append]

theorem unlines_singleton (l : String) : unlines [l] = l ++ "\n" := by
  rw [unlines, List.map_singleton, String.join_cons, String.join_nil, String.append_empty]

/-- Lines that are put together are found again in front of what follows them. -/
theorem lines_unlines_append {ls : List String} (h : ∀ l ∈ ls, IsLine l) (rest : List Char) :
    Source.lines ((unlines ls).toList ++ rest) = ls.map String.toList ++ Source.lines rest := by
  induction ls with
  | nil => rfl
  | cons l ls ih =>
    have hl := h l List.mem_cons_self
    have htext : (unlines (l :: ls)).toList ++ rest = l.toList ++ '\n' :: ((unlines ls).toList ++ rest) := by
      rw [← List.singleton_append, unlines_append, unlines_singleton, String.toList_append, String.toList_append,
        List.append_assoc, List.append_assoc]
      rfl
    obtain ⟨start, -, hstart, hlines⟩ :=
      Source.exists_lines_append (fun hm => (hl _ hm).1 rfl) ((unlines ls).toList ++ rest)
    rw [htext, hlines, hstart fun hr => (hl _ (List.mem_of_getLast? hr)).2 rfl,
      ih fun m hm => h m (List.mem_cons_of_mem _ hm), List.map_cons, List.cons_append]

end ResourceClient.TypeScript
