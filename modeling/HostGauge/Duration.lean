import HostGauge.Decimal.Layout

/-!
Spans of time in whole nanoseconds: their text with a unit, and their length in seconds as a
floating-point number.
-/
namespace HostGauge

structure Duration where
  nanos : Nat
  deriving DecidableEq, Repr, Inhabited

namespace Duration

def second : Nat := 1000000000

def ofSeconds (n : Nat) : Duration := ⟨n * second⟩

def zero : Duration := ⟨0⟩

/-- The seconds, rounded to a float, plus the rest over `10 ^ 9`. -/
def toSeconds (d : Duration) : Float :=
  Float.ofNat (d.nanos / second) + Float.ofNat (d.nanos % second) / 1e9

/-- `amount / 10 ^ places` without trailing zeros. -/
def decimalText (amount places : Nat) : List Char :=
  let whole := Numeral.write (amount / Nat.pow 10 places)
  let digits := Numeral.write (amount % Nat.pow 10 places)
  let padded := List.replicate (places - digits.length) '0' ++ digits
  let fraction := (padded.reverse.dropWhile (· = '0')).reverse
  if fraction.isEmpty then whole else whole ++ '.' :: fraction

/-- The number of the largest unit that fits, and its sign: `1.5s`, `20ms`, `1.001µs`, `0ns`. -/
def text (d : Duration) : String :=
  String.ofList <|
    if second ≤ d.nanos then decimalText d.nanos 9 ++ ['s']
    else if 1000000 ≤ d.nanos then decimalText d.nanos 6 ++ ['m', 's']
    else if 1000 ≤ d.nanos then decimalText d.nanos 3 ++ ['µ', 's']
    else decimalText d.nanos 0 ++ ['n', 's']

end Duration

/-- A number without exponent and without a superfluous point. -/
def Decimal.plain : Decimal.Layout := ⟨none, false⟩

end HostGauge
