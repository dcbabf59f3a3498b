/-
Finite double-precision numbers as a sign, a mantissa and a binary exponent, and the exact decimal
digits of those that are integers.
-/
namespace ResourceClient

/-- The number `± mantissa · 2 ^ exponent`. -/
structure Double where
  negative : Bool
  mantissa : Nat
  exponent : Int
  deriving DecidableEq, Repr, Inhabited

namespace Double

/-- Reads the interchange format; the infinities and the NaNs are no numbers. -/
def ofBits? (bits : UInt64) : Option Double :=
  let n : Nat := bits.toNat
  let fraction : Nat := n % Nat.pow 2 52
  let field : Nat := n / Nat.pow 2 52 % Nat.pow 2 11
  let negative := n / Nat.pow 2 63 == 1
  if field = 2047 then none
  else if field = 0 then some ⟨negative, fraction, -1074⟩
  else some ⟨negative, fraction + Nat.pow 2 52, (field : Int) - 1075⟩

/-- The magnitude, when it is an integer. -/
def magnitude? (x : Double) : Option Nat :=
  if 0 ≤ x.exponent then some (x.mantissa * Nat.pow 2 x.exponent.toNat)
  else if x.mantissa % Nat.pow 2 (-x.exponent).toNat = 0 then some (x.mantissa / Nat.pow 2 (-x.exponent).toNat)
  else none

end Double

end ResourceClient
