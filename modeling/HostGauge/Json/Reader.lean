import HostGauge.Json.Basic
import HostGauge.Json.Document
import HostGauge.Numeral

/-!
The values of JSON documents. A string must not hold half of a surrogate pair, a number must be
in range, and arrays and objects nest at most 127 deep; of members of one name the last counts.
-/
namespace HostGauge.Json

def isHighSurrogate (n : Nat) : Bool := 0xD800 ≤ n && n ≤ 0xDBFF

def isLowSurrogate (n : Nat) : Bool := 0xDC00 ≤ n && n ≤ 0xDFFF

/-- The characters of a string, if its code units form characters. -/
def WrittenString.chars? : WrittenString → Option (List Char)
  | [] => some []
  | .plain c :: rest => (chars? rest).map (c :: ·)
  | .unit n :: rest =>
    if isHighSurrogate n then
      match rest with
      | .unit m :: rest =>
        if isLowSurrogate m then
          (chars? rest).map (Char.ofNat (0x10000 + (n - 0xD800) * 0x400 + (m - 0xDC00)) :: ·)
        else none
      | _ => none
    else if isLowSurrogate n then none
    else (chars? rest).map (Char.ofNat n :: ·)

def WrittenString.text? (s : WrittenString) : Option String := (chars? s).map String.ofList

namespace WrittenNumber

/-- The digits that fit into 64 bits, as a number, and the digits that are left. -/
def leading (start : Nat) : List Char → Nat × List Char
  | [] => (start, [])
  | d :: rest =>
    let next := 10 * start + Numeral.value [d]
    if next < UInt64.size then leading next rest else (start, d :: rest)

/-- `significand * 10 ^ exponent`, by one multiplication or division with a power of ten at a
time; an overflow has no answer. The steps bound the number of divisions by `10 ^ 308`. -/
def scale : Nat → Float → Int → Option Float
  | 0, f, _ => some f
  | steps + 1, f, exponent =>
    if exponent.natAbs ≤ 308 then
      let power := Float.ofScientific 1 false exponent.natAbs
      if 0 ≤ exponent then if (f * power).isInf then none else some (f * power)
      else some (f / power)
    else if f == 0.0 then some f
    else if 0 ≤ exponent then none
    else scale steps (f / 1e308) (exponent + 308)

/-- The largest exponent that is read; beyond it the number is zero or out of range. -/
def maxExponent : Nat := Nat.pow 2 31 - 1

def real? (negative : Bool) (significand : Nat) (exponent : Int) : Option Float :=
  let signed (f : Float) : Float := if negative then -f else f
  (scale 8 (Float.ofNat significand) exponent).map signed

/-- A number with a point, an exponent or more than 64 bits. Digits after those that fit into 64
bits count only for the exponent. -/
def float? (n : WrittenNumber) : Option Float :=
  let (whole, dropped) := leading 0 n.whole
  let fraction := n.fraction.getD []
  let (significand, unread) := leading whole fraction
  let shift : Int := (dropped.length : Int) - ((fraction.length - unread.length : Nat) : Int)
  match n.exponent with
  | none => real? n.negative significand shift
  | some e =>
    let amount := Numeral.value e.digits
    if maxExponent < amount then
      if significand ≠ 0 && !e.negative then none
      else some (if n.negative then -0.0 else 0.0)
    else real? n.negative significand (if e.negative then shift - amount else shift + amount)

/-- An integer of 64 bits, or else the float nearby. A negative zero is a float. -/
def number? (n : WrittenNumber) : Option JsonNumber :=
  let value := Numeral.value n.whole
  if n.fraction.isNone && n.exponent.isNone then
    if !n.negative && value < UInt64.size then some (.integer value)
    else if n.negative && value ≠ 0 && value ≤ Nat.pow 2 63 then some (.integer (-value))
    else n.float?.map .real
  else n.float?.map .real

/-- The value of a number that is an unsigned integer of 64 bits. -/
def word? (n : WrittenNumber) : Option UInt64 :=
  if n.negative || n.fraction.isSome || n.exponent.isSome then none
  else Numeral.decimal64? n.whole

end WrittenNumber

/-- How deep arrays and objects nest in a value. -/
def maxDepth : Nat := 127

namespace Document

mutual

/-- The value of a document whose arrays and objects nest at most `depth` deep. -/
def value? (depth : Nat) : Document → Option Json
  | null => some .null
  | bool b => some (.bool b)
  | number n => n.number?.map .number
  | string s => s.text?.map .string
  | array items => if depth = 0 then none else (items? (depth - 1) items).map .array
  | object members =>
    if depth = 0 then none
    else (members? (depth - 1) members).map fun ms => .object (Json.membersOf ms)

def items? (depth : Nat) : List Document → Option (List Json)
  | [] => some []
  | d :: rest =>
    match value? depth d, items? depth rest with
    | some v, some vs => some (v :: vs)
    | _, _ => none

def member? (depth : Nat) : WrittenString × Document → Option (String × Json)
  | (name, d) =>
    match name.text?, value? depth d with
    | some name, some v => some (name, v)
    | _, _ => none

def members? (depth : Nat) : List (WrittenString × Document) → Option (List (String × Json))
  | [] => some []
  | m :: rest =>
    match member? depth m, members? depth rest with
    | some m, some ms => some (m :: ms)
    | _, _ => none

end

end Document

/-- The value of a text. -/
def parse? (text : List Char) : Option Json :=
  (Document.parse? text).bind (Document.value? maxDepth)

end HostGauge.Json
