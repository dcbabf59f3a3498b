/-
Finding a word in a text: at its start, or at its first occurrence. What is found behind it is shorter
than the text, which is why readers end.
-/
namespace ResourceClient.Text

/-- What follows `word` at the start of a text. -/
def strip? (word cs : List Char) : Option (List Char) :=
  if word.isPrefixOf cs then some (cs.drop word.length) else none

/-- What follows the first occurrence of `word` in a text. -/
def after? (word : List Char) : List Char → Option (List Char)
  | [] => strip? word []
  | c :: cs => (strip? word (c :: cs)).or (after? word cs)

theorem strip?_eq_some {word cs rest : List Char} : strip? word cs = some rest ↔ cs = word ++ rest := by
  unfold strip?
  constructor
  · intro h
    split at h
    · rename_i hp
      obtain ⟨more, rfl⟩ := List.isPrefixOf_iff_prefix.1 hp
      simpa using h
    · cases h
  · rintro rfl
    simp

theorem strip?_length {word cs rest : List Char} (h : strip? word cs = some rest) :
    rest.length + word.length = cs.length := by
  rw [strip?_eq_some.1 h, List.length_append, Nat.add_comm]

theorem after?_length {word cs rest : List Char} (h : after? word cs = some rest) :
    rest.length + word.length ≤ cs.length := by
  induction cs with
  | nil => exact Nat.le_of_eq (strip?_length h)
  | cons c cs ih =>
    rcases Option.or_eq_some_iff.1 h with h | ⟨-, h⟩
    · exact Nat.le_of_eq (strip?_length h)
    · exact Nat.le_succ_of_le (ih h)

theorem length_of_dropWhile {p : Char → Bool} {c : Char} {cs more : List Char}
    (h : cs.dropWhile p = c :: more) : more.length < cs.length := by
  have l := (List.dropWhile_sublist p (l := cs)).length_le
  rw [h, List.length_cons] at l
  omega

theorem length_dropWhile_le (p : Char → Bool) (cs : List Char) : (cs.dropWhile p).length ≤ cs.length :=
  (List.dropWhile_sublist p).length_le

end ResourceClient.Text
