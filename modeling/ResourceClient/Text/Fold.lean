/-
Comparison ignoring the case of ASCII letters. All other characters, letters or not, count as they
are written.
-/
namespace ResourceClient.Text

/-- Lower case for the ASCII letters. -/
def foldChars (cs : List Char) : List Char :=
  cs.map Char.toLower

/-- `foldChars` on strings. -/
def fold (s : String) : String :=
  String.ofList (foldChars s.toList)

/-- Equality up to the case of ASCII letters. -/
def sameFolded (a b : String) : Bool :=
  fold a == fold b

theorem sameFolded_iff {a b : String} : sameFolded a b = true ↔ fold a = fold b := by
  simp [sameFolded]

@[simp] theorem sameFolded_refl (a : String) : sameFolded a a = true := by
  simp [sameFolded]

theorem sameFolded_comm (a b : String) : sameFolded a b = sameFolded b a := by
  simp [sameFolded, Bool.beq_comm]

end ResourceClient.Text
