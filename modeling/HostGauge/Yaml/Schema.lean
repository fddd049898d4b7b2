import HostGauge.Decimal.Reader

/-!
What a scalar without quotes and tag stands for: nothing, a truth value, a number, or the text
itself.
-/
namespace HostGauge.Yaml.Schema

def nullWords : List String := ["null", "Null", "NULL", "~"]

def boolWords : List String := ["true", "True", "TRUE", "false", "False", "FALSE"]

def infinityWords : List String :=
  [".inf", ".Inf", ".INF", "+.inf", "+.Inf", "+.INF", "-.inf", "-.Inf", "-.INF"]

def nanWords : List String := [".nan", ".NaN", ".NAN"]

def isNull (s : List Char) : Bool := nullWords.contains (String.ofList s)

def isBool (s : List Char) : Bool := boolWords.contains (String.ofList s)

def isSign (c : Char) : Bool := c = '+' || c = '-'

def dropSign : List Char → List Char
  | c :: s => if isSign c then s else c :: s
  | [] => []

/-- Several digits of which the first is a zero, which are no number. -/
def hasLeadingZero (s : List Char) : Bool :=
  match dropSign s with
  | '0' :: d :: rest => (d :: rest).all Char.isDigit
  | _ => false

/-- The value of a digit in a radix up to sixteen. -/
def digit? (radix : Nat) (c : Char) : Option Nat :=
  let value :=
    if c.isDigit then c.toNat - '0'.toNat
    else if 'a' ≤ c && c ≤ 'f' then c.toNat - 'a'.toNat + 10
    else if 'A' ≤ c && c ≤ 'F' then c.toNat - 'A'.toNat + 10
    else radix
  if value < radix then some value else none

/-- The value of a run of digits, if it is below a limit. -/
def digits? (radix limit : Nat) (s : List Char) : Option Nat :=
  if s.isEmpty then none
  else
    match s.mapM (digit? radix) with
    | some values =>
      let n := values.foldl (fun n d => radix * n + d) 0
      if n < limit then some n else none
    | none => none

/-- The radix that a numeral names at its start, and its digits. -/
def radix? : List Char → Option (Nat × List Char)
  | '0' :: 'x' :: digits => some (16, digits)
  | '0' :: 'o' :: digits => some (8, digits)
  | '0' :: 'b' :: digits => some (2, digits)
  | _ => none

/-- An unsigned integer below a limit, with an optional plus sign in front. -/
def unsigned? (limit : Nat) (s : List Char) : Option Nat :=
  let magnitude :=
    match s with
    | '+' :: m => m
    | s => s
  match radix? magnitude with
  | some (radix, digits) => digits? radix limit digits
  | none => if hasLeadingZero s then none else digits? 10 limit magnitude

/-- The magnitude of a negative integer, up to a limit. -/
def negated? (limit : Nat) : List Char → Option Nat
  | '-' :: m =>
    match radix? m with
    | some (radix, digits) => digits? radix (limit + 1) digits
    | none => if hasLeadingZero m then none else digits? 10 (limit + 1) m
  | _ => none

/-- A finite number with a point or an exponent, or beyond the range of integers. -/
def isFinite (s : List Char) : Bool :=
  let magnitude? :=
    match s with
    | '+' :: c :: m => if isSign c then none else some (c :: m)
    | s => some s
  (magnitude?.bind Decimal.float?).any (·.isFinite)

def isNumber (s : List Char) : Bool :=
  (unsigned? (Nat.pow 2 128) s).isSome || (negated? (Nat.pow 2 127) s).isSome || isFinite s
    || infinityWords.contains (String.ofList s) || nanWords.contains (String.ofList s)

/-- Read without quotes the text stands for itself, and nothing about it looks like a number. -/
def isPlainText (s : List Char) : Bool :=
  !(s.isEmpty || isNull s || isBool s || isNumber s || hasLeadingZero s)

end HostGauge.Yaml.Schema
