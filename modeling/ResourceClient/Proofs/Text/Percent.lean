/-
Reading percent-encoded text. A percent sign and two hexadecimal digits stand for a byte, any other character for its
own bytes, and the bytes are read as UTF-8. An encoded text reads back as it was, and has none of the signs by which a
query is taken apart.
-/
import ResourceClient.Text.Digits
import ResourceClient.Text.Percent
import ResourceClient.Proofs.Text.Ascii
import Mathlib.Data.List.Basic

namespace ResourceClient.Text.Percent

/-! ## Reading -/

/-- The byte that two hexadecimal digits write. -/
def byte? (high low : Char) : Option UInt8 :=
  (number? 16 [high, low]).map UInt8.ofNat

/-- The bytes of an encoded text. -/
def decodeBytes? : List Char → Option (List UInt8)
  | [] => some []
  | '%' :: high :: low :: cs => (byte? high low).bind fun b => (decodeBytes? cs).map (b :: ·)
  | '%' :: _ => none
  | c :: cs => (decodeBytes? cs).map (String.utf8EncodeChar c ++ ·)

/-- The text of an encoded text. -/
def decode? (cs : List Char) : Option String :=
  (decodeBytes? cs).bind fun bytes => String.fromUTF8? bytes.toByteArray

theorem decodeBytes?_cons {c : Char} (h : c ≠ '%') (cs : List Char) :
    decodeBytes? (c :: cs) = (decodeBytes? cs).map (String.utf8EncodeChar c ++ ·) := by
  rw [decodeBytes?.eq_def]
  split
  · rename_i he
    cases he
  · rename_i he
    exact absurd (List.cons.inj he).1 h
  · rename_i he
    exact absurd (List.cons.inj he).1 h
  · rename_i he
    cases he
    rfl

/-! ## The written bytes -/

theorem digit?_hexDigit : ∀ n < 16, number?.digit? 16 (hexDigit n) = some n := by
  decide

theorem byte?_hexDigit (b : UInt8) : byte? (hexDigit (b.toNat / 16)) (hexDigit (b.toNat % 16)) = some b := by
  have hb : b.toNat < 256 := b.toNat_lt
  have hhigh := digit?_hexDigit (b.toNat / 16) (by omega)
  have hlow := digit?_hexDigit (b.toNat % 16) (by omega)
  have hnumber : number? 16 [hexDigit (b.toNat / 16), hexDigit (b.toNat % 16)] = some b.toNat := by
    simp only [number?, List.isEmpty_cons, Bool.false_eq_true, if_false, List.foldlM_cons, List.foldlM_nil, hhigh, hlow,
      Option.map_some, Option.bind_eq_bind, Option.bind_some, Option.pure_def, Option.some.injEq]
    omega
  rw [byte?, hnumber, Option.map_some, UInt8.ofNat_toNat]

theorem decodeBytes?_encodeByte_append (b : UInt8) (rest : List Char) :
    decodeBytes? (encodeByte b ++ rest) = (decodeBytes? rest).map (b :: ·) := by
  show decodeBytes? ('%' :: hexDigit _ :: hexDigit _ :: rest) = _
  rw [decodeBytes?, byte?_hexDigit, Option.bind_some]

/-- Bytes are read back, whatever follows them. -/
theorem decodeBytes?_flatMap_append (bytes : List UInt8) (rest : List Char) :
    decodeBytes? (bytes.flatMap encodeByte ++ rest) = (decodeBytes? rest).map (bytes ++ ·) := by
  induction bytes with
  | nil => simp
  | cons b bytes ih =>
    rw [List.flatMap_cons, List.append_assoc, decodeBytes?_encodeByte_append, ih, Option.map_map]
    rfl

/-- A character is read as its bytes, however it is written. -/
theorem decodeBytes?_encodeChar_append (c : Char) (rest : List Char) :
    decodeBytes? (encodeChar c ++ rest) = (decodeBytes? rest).map (String.utf8EncodeChar c ++ ·) := by
  unfold encodeChar
  split
  · rename_i hkept
    exact decodeBytes?_cons (ne_of_class hkept (by decide)) rest
  · exact decodeBytes?_flatMap_append _ rest

theorem decodeBytes?_encode (cs : List Char) : decodeBytes? (encode cs) = some (cs.flatMap String.utf8EncodeChar) := by
  induction cs with
  | nil => rfl
  | cons c cs ih =>
    have hencode : encode (c :: cs) = encodeChar c ++ encode cs := List.flatMap_cons
    rw [hencode, decodeBytes?_encodeChar_append, ih]
    rfl

theorem fromUTF8?_flatMap (cs : List Char) :
    String.fromUTF8? (cs.flatMap String.utf8EncodeChar).toByteArray = some (String.ofList cs) := by
  have hvalid : (cs.flatMap String.utf8EncodeChar).toByteArray.IsValidUTF8 := ByteArray.isValidUTF8_utf8Encode
  rw [String.fromUTF8?, dif_pos hvalid]
  rfl

/-- An encoded text reads back as it was. -/
theorem decode?_encode (cs : List Char) : decode? (encode cs) = some (String.ofList cs) := by
  rw [decode?, decodeBytes?_encode, Option.bind_some, fromUTF8?_flatMap]

/-! ## The written characters -/

theorem isAlphanum_hexDigit : ∀ n < 16, (hexDigit n).isAlphanum = true := by
  decide

/-- An encoded text has unreserved characters and percent signs only. -/
theorem of_mem_encode {cs : List Char} {c : Char} (h : c ∈ encode cs) : isUnreserved c = true ∨ c = '%' := by
  have hdigit : ∀ n < 16, isUnreserved (hexDigit n) = true := fun n hn => by
    rw [isUnreserved, isAlphanum_hexDigit n hn, Bool.true_or]
  obtain ⟨d, -, hd⟩ := List.mem_flatMap.1 h
  unfold encodeChar at hd
  split at hd
  · rename_i hkept
    rw [List.mem_singleton.1 hd]
    exact .inl hkept
  · obtain ⟨b, -, hb⟩ := List.mem_flatMap.1 hd
    have hlt : b.toNat < 256 := b.toNat_lt
    simp only [encodeByte, List.mem_cons, List.not_mem_nil, or_false] at hb
    rcases hb with rfl | rfl | rfl
    · exact .inr rfl
    · exact .inl (hdigit _ (by omega))
    · exact .inl (hdigit _ (by omega))

/-- A sign that is neither unreserved nor the percent sign is not found in an encoded text. -/
theorem not_mem_encode {d : Char} (hd : isUnreserved d = false) (hp : d ≠ '%') (cs : List Char) : d ∉ encode cs := by
  intro hmem
  rcases of_mem_encode hmem with h | h
  · rw [hd] at h
    cases h
  · exact hp h

end ResourceClient.Text.Percent
