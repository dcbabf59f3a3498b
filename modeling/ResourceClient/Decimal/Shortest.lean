/-
The shortest decimal that reads back as a double, and its text. The decimals `c · 10 ^ p` with a fixed
`p` form a grid; the shortest decimal lies on the coarsest grid that has a point in the interval of
reals rounding to the number, and is the point of that grid nearest to the number.
-/
import ResourceClient.Decimal.Double
import ResourceClient.Text.Digits

namespace ResourceClient.Double

/-! ## The rounding interval -/

/-- The ends of the rounding interval in quarters of the last binary place. Below a power of two the
next number is half as far away. -/
def lowQuarters (x : Double) : Nat :=
  if x.mantissa = Nat.pow 2 52 ∧ -1074 < x.exponent then 4 * x.mantissa - 1 else 4 * x.mantissa - 2

def highQuarters (x : Double) : Nat :=
  4 * x.mantissa + 2

/-- A decimal `c · 10 ^ p` and a count `q` of quarters, brought to a common unit. -/
def scaledDecimal (x : Double) (p : Int) (c : Nat) : Nat :=
  c * Nat.pow 10 p.toNat * Nat.pow 2 (2 - x.exponent).toNat

def scaledQuarters (x : Double) (p : Int) (q : Nat) : Nat :=
  q * Nat.pow 2 (x.exponent - 2).toNat * Nat.pow 10 (-p).toNat

/-- Whether `c · 10 ^ p` rounds to the magnitude; the ends do when the mantissa is even. -/
def rounds (x : Double) (p : Int) (c : Nat) : Bool :=
  let d := x.scaledDecimal p c
  let low := x.scaledQuarters p x.lowQuarters
  let high := x.scaledQuarters p x.highQuarters
  if x.mantissa % 2 = 0 then low ≤ d && d ≤ high else low < d && d < high

/-! ## The search -/

/-- The point of the grid `10 ^ p` nearest to the magnitude among those that round to it. Of two points
equally near, the even one is taken. -/
def nearestOn? (x : Double) (p : Int) : Option Nat :=
  let value := x.scaledQuarters p (4 * x.mantissa)
  let unit := x.scaledDecimal p 1
  let below := value / unit
  let gap := value - below * unit
  let belowFits := 0 < below && x.rounds p below
  let aboveFits := x.rounds p (below + 1)
  if belowFits && aboveFits then
    if 2 * gap < unit || (2 * gap = unit && below % 2 = 0) then some below else some (below + 1)
  else if belowFits then some below
  else if aboveFits then some (below + 1)
  else none

/-- The shortest decimal `c · 10 ^ p` of a magnitude, as `(c, p)`. The grids run from one coarser than
every double to one that has every double's neighbours. -/
def shortest (x : Double) : Nat × Int :=
  ((List.range 700).findSome? fun (i : Nat) =>
    let p : Int := 310 - (i : Int)
    (x.nearestOn? p).map fun c => (c, p)).getD (0, 0)

/-! ## The text -/

/-- A decimal with a point: a fraction digit is always there. -/
def positional (digits : List Char) (p : Int) : List Char :=
  if 0 ≤ p then digits ++ List.replicate p.toNat '0' ++ ['.', '0']
  else
    let places := (-p).toNat
    if places < digits.length then
      digits.take (digits.length - places) ++ '.' :: digits.drop (digits.length - places)
    else '0' :: '.' :: List.replicate (places - digits.length) '0' ++ digits

/-- One digit before the point and a signed exponent without leading zeros. -/
def scientific (digits : List Char) (p : Int) : List Char :=
  let e := p + (digits.length : Int) - 1
  let fraction := match digits.drop 1 with
    | [] => []
    | rest => '.' :: rest
  digits.take 1 ++ fraction ++ 'e' :: (if e < 0 then '-' else '+') :: Text.decimalChars e.natAbs

/-- The magnitude is written with a point from `0.00001` up to `10 ^ 16`, and with an exponent outside. -/
def text (x : Double) : String :=
  let sign := if x.negative then ['-'] else []
  if x.mantissa = 0 then String.ofList (sign ++ ['0', '.', '0'])
  else
    let (c, p) := x.shortest
    let digits := Text.decimalChars c
    let e := p + (digits.length : Int) - 1
    String.ofList (sign ++ if -5 ≤ e && e < 16 then positional digits p else scientific digits p)

end ResourceClient.Double
