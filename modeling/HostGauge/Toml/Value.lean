import HostGauge.Decimal.Reader
import HostGauge.Toml.Token

/-!
TOML values and keys, read from tokens. Dotted keys make tables that further dotted keys may
extend; all other tables are closed. Each reader returns the tokens that follow what it read.
-/
namespace HostGauge.Toml

inductive Value where
  | string (s : String)
  | integer (n : Int)
  | float (x : Float)
  | boolean (b : Bool)
  /-- A date or a time; its digits are not examined. -/
  | dateTime
  | array (items : List Value)
  | table (dotted : Bool) (pairs : List (String × Value))

instance : Inhabited Value := ⟨.boolean false⟩

/-! ### Numbers -/

def isRadixDigit (radix : Nat) (c : Char) : Bool :=
  match hexValue? c with
  | some d => d < radix
  | none => false

/-- Single underscores stand between digits only. -/
def separated : List Char → Bool
  | '_' :: '_' :: _ => false
  | [c] => c ≠ '_'
  | _ :: rest => separated rest
  | [] => true

/-- Digits with underscores between them: at least one, and no leading zeros unless allowed. -/
def isDigitRun (leadingZeros : Bool) (s : List Char) : Bool :=
  match s with
  | [] => false
  | c :: rest => c ≠ '_' && separated s && (leadingZeros || c ≠ '0' || rest.isEmpty)

/-- The digits at the start of a text, with a sign where one is allowed, and the rest. -/
def digitRun? (sign leadingZeros : Bool) (radix : Nat) (s : List Char) :
    Option (List Char × List Char) :=
  let (signText, body) :=
    match s with
    | c :: rest => if sign && (c = '+' || c = '-') then ([c], rest) else ([], s)
    | [] => ([], s)
  let accepted (c : Char) : Bool := isRadixDigit radix c || c = '_'
  let run := body.takeWhile accepted
  if isDigitRun leadingZeros run then some (signText ++ run, body.dropWhile accepted) else none

def withoutUnderscores (s : List Char) : List Char := s.filter (· ≠ '_')

/-- The value of digits with an optional sign, if it fits into 64 signed bits. -/
def integerValue? (radix : Nat) (s : List Char) : Option Int :=
  let (negative, digits) :=
    match s with
    | '-' :: digits => (true, digits)
    | '+' :: digits => (false, digits)
    | digits => (false, digits)
  let magnitude : Int := digits.foldl (fun n c => radix * n + (hexValue? c).getD 0) 0
  let value := if negative then -magnitude else magnitude
  if Int64.minValue.toInt ≤ value && value ≤ Int64.maxValue.toInt then some value else none

def integer? (radix : Nat) (s : List Char) : Option Int :=
  match digitRun? (radix = 10) (radix ≠ 10) radix s with
  | some (digits, []) => integerValue? radix (withoutUnderscores digits)
  | _ => none

/-- A finite float from its digits, its fraction and its exponent. -/
def floatValue? (whole : List Char) (fraction exponent : Option (List Char)) : Option Float :=
  let text := withoutUnderscores whole
    ++ (match fraction with | some f => '.' :: withoutUnderscores f | none => [])
    ++ (match exponent with | some e => 'e' :: withoutUnderscores e | none => [])
  match Decimal.float? text with
  | some x => if x.isFinite then some x else none
  | none => none

/-- The exponent after the digits of a float; its plus sign and digits are tokens of their own. -/
def exponent? (suffix : List Char) (ts : List Token) :
    Option (Option (List Char) × List Token) :=
  match suffix with
  | [] => some (none, ts)
  | c :: digits =>
    if c ≠ 'e' && c ≠ 'E' then none
    else if digits.isEmpty then
      let ts := match ts with | .plus :: ts => ts | ts => ts
      match ts with
      | .bare s :: ts =>
        match digitRun? false true 10 s with
        | some (e, []) => some (some e, ts)
        | _ => none
      | _ => none
    else
      match digitRun? true true 10 digits with
      | some (e, []) => some (some e, ts)
      | _ => none

def float? (s : List Char) (fraction : Option (List Char)) (ts : List Token) :
    Option (Value × List Token) := do
  let (whole, suffix) ← digitRun? true false 10 s
  match fraction with
  | none =>
    let (e, ts) ← exponent? suffix ts
    let x ← floatValue? whole none e
    return (.float x, ts)
  | some fraction =>
    if !suffix.isEmpty then none
    else
      let (f, suffix) ← digitRun? false true 10 fraction
      let (e, ts) ← exponent? suffix ts
      let x ← floatValue? whole (some f) e
      return (.float x, ts)

/-- The special floats by their names. -/
def specialFloat? (s : List Char) : Option Float :=
  if s = "inf".toList then some (Float.ofBits 0x7FF0000000000000)
  else if s = "-inf".toList then some (Float.ofBits 0xFFF0000000000000)
  else if s = "nan".toList || s = "-nan".toList then some (Float.ofBits 0x7FF8000000000000)
  else none

def number? (s : List Char) (ts : List Token) : Option (Value × List Token) :=
  match s with
  | '0' :: 'x' :: digits => (integer? 16 digits).map fun n => (.integer n, ts)
  | '0' :: 'o' :: digits => (integer? 8 digits).map fun n => (.integer n, ts)
  | '0' :: 'b' :: digits => (integer? 2 digits).map fun n => (.integer n, ts)
  | s =>
    if s.any fun c => c = 'e' || c = 'E' then float? s none ts
    else
      match ts with
      | .period :: .bare fraction :: ts => float? s (some fraction) ts
      | .period :: _ => none
      | ts =>
        match specialFloat? s with
        | some x => some (.float x, ts)
        | none => (integer? 10 s).map fun n => (.integer n, ts)

/-! ### Dates and times -/

/-- The hour of a date that is separated from it by one space. -/
def skipHour : List Token → List Token
  | .space [' '] :: .bare _ :: ts => ts
  | ts => ts

/-- Fraction and offset of a time. -/
def timeEnd? (ts : List Token) : Option (List Token) := do
  let ts ← match ts with
    | .period :: .bare _ :: ts => some ts
    | .period :: _ => none
    | ts => some ts
  let ts ← match ts with
    | .plus :: .bare _ :: ts => some ts
    | .plus :: _ => none
    | ts => some ts
  match ts with
  | .colon :: .bare _ :: ts => some ts
  | .colon :: _ => none
  | ts => some ts

/-- The tokens after a date or a time; `inTime` says that the colon after the hour was read. -/
def dateTime? (inTime : Bool) (ts : List Token) : Option (Value × List Token) :=
  let ts := skipHour ts
  let time? (ts : List Token) : Option (Value × List Token) :=
    match ts with
    | .bare _ :: .colon :: .bare _ :: ts => (timeEnd? ts).map fun ts => (.dateTime, ts)
    | _ => none
  if inTime then time? ts
  else
    match ts with
    | .colon :: ts => time? ts
    | ts => some (.dateTime, ts)

def looksLikeDate (s : List Char) : Bool :=
  let hasPair (a b : Char) : Bool := (s.zip (s.drop 1)).contains (a, b)
  s.contains 'T' || s.contains 't'
    || ((s.drop 1).contains '-' && !hasPair 'e' '-' && !hasPair 'E' '-')

def numberOrDate? (s : List Char) (ts : List Token) : Option (Value × List Token) :=
  if looksLikeDate s then dateTime? false ts
  else
    match ts with
    | .colon :: ts => dateTime? true ts
    | ts => number? s ts

def bareValue? (s : List Char) (ts : List Token) : Option (Value × List Token) :=
  if s = "true".toList then some (.boolean true, ts)
  else if s = "false".toList then some (.boolean false, ts)
  else if s = "inf".toList || s = "nan".toList then numberOrDate? s ts
  else if s.head?.any fun c => c = '-' || c.isDigit then numberOrDate? s ts
  else none

/-! ### Keys -/

def skipSpace : List Token → List Token
  | .space _ :: ts => ts
  | ts => ts

/-- Skips spaces, line ends and comments. -/
def skipLines : List Token → List Token
  | .space _ :: ts => skipLines ts
  | .newline :: ts => skipLines ts
  | .comment :: ts => skipLines ts
  | ts => ts

def key? : List Token → Option (String × List Token)
  | .bare s :: ts => some (String.ofList s, ts)
  | .string s false :: ts => some (String.ofList s, ts)
  | _ => none

/-- The parts of a dotted key after the first one; `steps` bounds their number. -/
def moreKeys? : Nat → List Token → Option (List String × List Token)
  | 0, _ => none
  | steps + 1, ts =>
    match skipSpace ts with
    | .period :: ts =>
      match key? (skipSpace ts) with
      | some (k, ts) => (moreKeys? steps ts).map fun p => (k :: p.1, p.2)
      | none => none
    | ts => some ([], ts)

/-- A dotted key and the tokens after it and the spaces that follow it. -/
def dottedKey? (ts : List Token) : Option (List String × List Token) :=
  match key? ts with
  | some (k, rest) => (moreKeys? ts.length rest).map fun p => (k :: p.1, p.2)
  | none => none

/-- Adds a pair to the pairs of a table. A dotted key goes into the table that the first pair of
its name holds, which must have been made by dotted keys. -/
def addPair? : List String → Value → List (String × Value) → Option (List (String × Value))
  | [], _, _ => none
  | [k], value, pairs => some (pairs ++ [(k, value)])
  | k :: rest, value, pairs =>
    let (before, after) := pairs.span (·.1 ≠ k)
    match after with
    | [] => (addPair? rest value []).map fun inner => pairs ++ [(k, .table true inner)]
    | (_, .table true inner) :: after =>
      (addPair? rest value inner).map fun inner => before ++ (k, .table true inner) :: after
    | _ :: _ => none

/-! ### Values -/

mutual

/-- A value and the tokens after it. `steps` bounds nesting and number of the values. -/
def value? : Nat → List Token → Option (Value × List Token)
  | 0, _ => none
  | steps + 1, ts =>
    match ts with
    | .string s _ :: ts => some (.string (String.ofList s), ts)
    | .bare s :: ts => bareValue? s ts
    | .plus :: .bare s :: ts => number? s ts
    | .openBrace :: ts =>
      match skipSpace ts with
      | .closeBrace :: ts => some (.table false [], ts)
      | ts => (pairs? steps [] ts).map fun p => (.table false p.1, p.2)
    | .openBracket :: ts => (items? steps ts).map fun p => (.array p.1, p.2)
    | _ => none

/-- The pairs of a table within one line, up to its closing brace. -/
def pairs? : Nat → List (String × Value) → List Token → Option (List (String × Value) × List Token)
  | 0, _, _ => none
  | steps + 1, before, ts =>
    match dottedKey? ts with
    | some (key, .equals :: ts) =>
      match value? steps (skipSpace ts) with
      | some (value, ts) =>
        match addPair? key value before with
        | some pairs =>
          match skipSpace ts with
          | .closeBrace :: ts => some (pairs, ts)
          | .comma :: ts => pairs? steps pairs (skipSpace ts)
          | _ => none
        | none => none
      | none => none
    | _ => none

/-- The items of an array up to its closing bracket; a comma may follow the last one. -/
def items? : Nat → List Token → Option (List Value × List Token)
  | 0, _ => none
  | steps + 1, ts =>
    match skipLines ts with
    | .closeBracket :: ts => some ([], ts)
    | ts =>
      match value? steps ts with
      | some (value, ts) =>
        match skipLines ts with
        | .comma :: ts => (items? steps ts).map fun p => (value :: p.1, p.2)
        | .closeBracket :: ts => some ([value], ts)
        | _ => none
      | none => none

end

end HostGauge.Toml
