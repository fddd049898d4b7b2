import HostGauge.Decimal.Shortest
import HostGauge.Numeral

/-!
Decimal texts of floating-point numbers: their shortest digits, laid out with or without an
exponent.
-/
namespace HostGauge.Decimal

/-- How a number is laid out. -/
structure Layout where
  /-- The first and the last exponent of the leading digit that are written positionally;
  without them every number is. -/
  positional : Option (Int × Int)
  /-- Whether a number without fraction ends in `.0`. -/
  pointZero : Bool
  deriving DecidableEq, Repr

/-- Positional layout of digits of which `whole` stand before the point. -/
def positionalText (pointZero : Bool) (digits : List Char) (whole : Int) : List Char :=
  if whole ≤ 0 then '0' :: '.' :: (List.replicate (-whole).toNat '0' ++ digits)
  else if digits.length ≤ whole.toNat then
    digits ++ List.replicate (whole.toNat - digits.length) '0'
      ++ (if pointZero then ['.', '0'] else [])
  else digits.take whole.toNat ++ '.' :: digits.drop whole.toNat

/-- Layout with one digit before the point and an exponent that always has a sign. -/
def scientificText (digits : List Char) (exponent : Int) : List Char :=
  let mantissa :=
    match digits with
    | first :: second :: rest => first :: '.' :: second :: rest
    | digits => digits
  let sign := if exponent < 0 then '-' else '+'
  mantissa ++ 'e' :: sign :: Numeral.write exponent.natAbs

def Layout.magnitude (layout : Layout) (bits : UInt64) : List Char :=
  let number := Binary.ofBits bits
  if number.mantissa = 0 then if layout.pointZero then ['0', '.', '0'] else ['0']
  else
    let shortest := shortest number
    let digits := Numeral.write shortest.digits
    let whole := shortest.exponent + digits.length
    match layout.positional with
    | none => positionalText layout.pointZero digits whole
    | some (first, last) =>
      if first ≤ whole - 1 && whole - 1 ≤ last then positionalText layout.pointZero digits whole
      else scientificText digits (whole - 1)

/-- The text of a finite number, with a minus sign also in front of a negative zero. -/
def Layout.text (layout : Layout) (x : Float) : List Char :=
  let magnitude := layout.magnitude x.toBits
  if x.toBits < 0x8000000000000000 then magnitude else '-' :: magnitude

end HostGauge.Decimal
