/-
Natural numbers as digits: written in decimal, read in any base up to sixteen.
-/
namespace ResourceClient.Text

/-- The decimal digits of a number, without leading zeros. -/
def decimalChars (n : Nat) : List Char :=
  Nat.toDigits 10 n

/-- `decimalChars` as a string. -/
def decimal (n : Nat) : String :=
  String.ofList (decimalChars n)

/-- The number written by digits of a base, at least one. -/
def number? (base : Nat) (digits : List Char) : Option Nat :=
  if digits.isEmpty then none
  else digits.foldlM (fun n c => (digit? c).map (n * base + ·)) 0
where
  digit? (c : Char) : Option Nat :=
    let value? :=
      if c.isDigit then some (c.toNat - '0'.toNat)
      else if 'a' ≤ c ∧ c ≤ 'f' then some (c.toNat - 'a'.toNat + 10)
      else if 'A' ≤ c ∧ c ≤ 'F' then some (c.toNat - 'A'.toNat + 10)
      else none
    value?.filter (· < base)

end ResourceClient.Text
