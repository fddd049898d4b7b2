import HostGauge.Numeral

/-!
Reading floating-point numerals: an optional sign, then digits with an optional point and an
optional exponent, or one of the words for the special values in any case. The nearest number
is taken, a tie going to the even mantissa.
-/
namespace HostGauge.Decimal

/-- The number nearest to `digits * 10 ^ exponent`. Far beyond the range of the format the answer
is infinity or zero, whatever the digits are. -/
def nearest (digits : Nat) (exponent : Int) : Float :=
  let magnitude := exponent + (Numeral.write digits).length
  if digits = 0 then 0
  else if 310 < magnitude then Float.ofBits 0x7FF0000000000000
  else if magnitude < -330 then 0
  else if exponent < 0 then Float.ofScientific digits true exponent.natAbs
  else Float.ofScientific digits false exponent.natAbs

/-- An exponent: digits with an optional sign. -/
def exponent? (s : List Char) : Option Int :=
  match s with
  | '+' :: digits => if Numeral.IsDigits digits then some (Numeral.value digits) else none
  | '-' :: digits => if Numeral.IsDigits digits then some (-(Numeral.value digits : Int)) else none
  | digits => if Numeral.IsDigits digits then some (Numeral.value digits) else none

/-- Digits with an optional point and an optional exponent; at least one digit stands before or
after the point. -/
def unsigned? (s : List Char) : Option Float :=
  let whole := s.takeWhile Char.isDigit
  let rest := s.dropWhile Char.isDigit
  let (fraction, rest) :=
    match rest with
    | '.' :: rest => (rest.takeWhile Char.isDigit, rest.dropWhile Char.isDigit)
    | rest => ([], rest)
  let digits := whole ++ fraction
  if digits.isEmpty then none
  else
    let shift : Int := -(fraction.length : Int)
    match rest with
    | [] => some (nearest (Numeral.value digits) shift)
    | c :: rest =>
      if c = 'e' || c = 'E' then
        (exponent? rest).map fun e => nearest (Numeral.value digits) (shift + e)
      else none

def infinityWords : List String := ["inf", "infinity"]

/-- A numeral without its sign. -/
def magnitude? (s : List Char) : Option Float :=
  let word := String.ofList (s.map Char.toLower)
  if word ∈ infinityWords then some (Float.ofBits 0x7FF0000000000000)
  else if word = "nan" then some (Float.ofBits 0x7FF8000000000000)
  else unsigned? s

/-- A floating-point numeral. -/
def float? : List Char → Option Float
  | '+' :: s => magnitude? s
  | '-' :: s => (magnitude? s).map Float.neg
  | s => magnitude? s

end HostGauge.Decimal
