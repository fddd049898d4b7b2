/-!
The shortest decimal of a binary number. Of all decimals `digits * 10 ^ exponent` that lie in the
interval of reals that round to the number, those with the largest exponent have the fewest
digits; of these the nearest is taken, and of two equally near ones the even one.
-/
namespace HostGauge.Decimal

/-- A binary number `mantissa * 2 ^ exponent`. -/
structure Binary where
  mantissa : Nat
  exponent : Int
  /-- The next smaller number is only half as far away as the next larger one. -/
  narrowBelow : Bool
  deriving DecidableEq, Repr

/-- The magnitude of a finite number in the 64-bit binary format. -/
def Binary.ofBits (bits : UInt64) : Binary :=
  let biased : Nat := (bits.toNat / Nat.pow 2 52) % Nat.pow 2 11
  let fraction : Nat := bits.toNat % Nat.pow 2 52
  if biased = 0 then ⟨fraction, -1074, false⟩
  else ⟨fraction + Nat.pow 2 52, (biased : Int) - 1075, fraction = 0 && 1 < biased⟩

/-- A decimal number `digits * 10 ^ exponent`. -/
structure Digits where
  digits : Nat
  exponent : Int
  deriving DecidableEq, Repr

/-- Ends and centre of the rounding interval in quarters of the last binary place. -/
def Binary.low (x : Binary) : Nat := 4 * x.mantissa - (if x.narrowBelow then 1 else 2)
def Binary.high (x : Binary) : Nat := 4 * x.mantissa + 2

/-- With `unit` for a multiple of `10 ^ k` and `quarter` for a quarter of the last binary place,
`c * 10 ^ k` is below `q * 2 ^ (exponent - 2)` iff `c * unit < q * quarter`. -/
def unit (x : Binary) (k : Int) : Nat :=
  Nat.pow 10 k.toNat * Nat.pow 2 (2 - x.exponent).toNat

def quarter (x : Binary) (k : Int) : Nat :=
  Nat.pow 2 (x.exponent - 2).toNat * Nat.pow 10 (-k).toNat

/-- Whether `c * 10 ^ k` rounds to the number; the ends do iff the mantissa is even. -/
def roundsTo (x : Binary) (k : Int) (c : Nat) : Bool :=
  let value := c * unit x k
  let low := x.low * quarter x k
  let high := x.high * quarter x k
  if x.mantissa % 2 = 0 then low ≤ value && value ≤ high else low < value && value < high

/-- The multiple of `10 ^ k` nearest to the number among its two neighbours that round to it. -/
def nearest? (x : Binary) (k : Int) : Option Nat :=
  let value := 4 * x.mantissa * quarter x k
  let below := value / unit x k
  let rest := value % unit x k
  let belowFits := below ≠ 0 && roundsTo x k below
  let aboveFits := roundsTo x k (below + 1)
  if belowFits && aboveFits then
    if 2 * rest < unit x k then some below
    else if unit x k < 2 * rest then some (below + 1)
    else some (if below % 2 = 0 then below else below + 1)
  else if belowFits then some below
  else if aboveFits then some (below + 1)
  else none

/-- Tries the powers of ten from `10 ^ k` down. -/
def search (x : Binary) : Nat → Int → Option Digits
  | 0, _ => none
  | steps + 1, k =>
    match nearest? x k with
    | some c => some ⟨c, k⟩
    | none => search x steps (k - 1)

/-- A power of ten above the number. -/
def topPower (x : Binary) : Int := ((x.mantissa.log2 : Int) + x.exponent) * 30103 / 100000 + 2

/-- The shortest decimal of a number other than zero. Seventeen digits always suffice, so the
search ends within its bound. -/
def shortest (x : Binary) : Digits := (search x 24 (topPower x)).getD ⟨x.mantissa, x.exponent⟩

end HostGauge.Decimal
