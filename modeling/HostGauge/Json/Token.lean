/-!
The tokens of a JSON text. Strings and numbers are kept as they are written, so that a part of
a document that nobody asks for need not have a meaning.
-/
namespace HostGauge.Json

/-- A piece of a string as it is written. -/
inductive Piece where
  | plain (c : Char)
  /-- A code unit of UTF-16, written with four hexadecimal digits. -/
  | unit (n : Nat)
  deriving DecidableEq, Repr

abbrev WrittenString := List Piece

/-- The power of ten of a number as it is written. -/
structure WrittenExponent where
  negative : Bool
  digits : List Char
  deriving DecidableEq, Repr

/-- A number as it is written. -/
structure WrittenNumber where
  negative : Bool
  whole : List Char
  fraction : Option (List Char)
  exponent : Option WrittenExponent
  deriving DecidableEq, Repr

inductive Token where
  | openArray
  | closeArray
  | openObject
  | closeObject
  | colon
  | comma
  | null
  | bool (b : Bool)
  | number (n : WrittenNumber)
  | string (s : WrittenString)
  deriving DecidableEq, Repr

/-- Blanks between tokens. -/
def isSpace (c : Char) : Bool := c = ' ' || c = '\t' || c = '\n' || c = '\r'

def hexValue? (c : Char) : Option Nat :=
  if c.isDigit then some (c.toNat - '0'.toNat)
  else if 'a' ≤ c && c ≤ 'f' then some (c.toNat - 'a'.toNat + 10)
  else if 'A' ≤ c && c ≤ 'F' then some (c.toNat - 'A'.toNat + 10)
  else none

def unit? (a b c d : Char) : Option Nat := do
  let a ← hexValue? a
  let b ← hexValue? b
  let c ← hexValue? c
  let d ← hexValue? d
  return ((16 * a + b) * 16 + c) * 16 + d

/-- The character of an escape with one letter. -/
def unescape? : Char → Option Char
  | '"' => some '"'
  | '\\' => some '\\'
  | '/' => some '/'
  | 'b' => some '\x08'
  | 'f' => some '\x0c'
  | 'n' => some '\n'
  | 'r' => some '\r'
  | 't' => some '\t'
  | _ => none

/-- The rest of a string after its opening quote, and what follows its closing quote. -/
def scanString : List Char → Option (WrittenString × List Char)
  | [] => none
  | '"' :: rest => some ([], rest)
  | '\\' :: 'u' :: a :: b :: c :: d :: rest => do
    let n ← unit? a b c d
    let (pieces, rest) ← scanString rest
    return (.unit n :: pieces, rest)
  | '\\' :: e :: rest => do
    let c ← unescape? e
    let (pieces, rest) ← scanString rest
    return (.plain c :: pieces, rest)
  | c :: rest =>
    if c.toNat < 0x20 then none
    else do
      let (pieces, rest) ← scanString rest
      return (.plain c :: pieces, rest)

theorem length_scanString {s : List Char} {p : WrittenString} {r : List Char}
    (h : scanString s = some (p, r)) : r.length < s.length := by
  fun_induction scanString s generalizing p r <;>
    simp only [Option.pure_def, Option.bind_eq_bind, Option.bind_eq_some_iff, Option.some.injEq,
      Prod.mk.injEq, reduceCtorEq, Prod.exists] at h <;> grind

/-- The characters that may stand in a number. -/
def isNumberChar (c : Char) : Bool :=
  c.isDigit || c = '-' || c = '+' || c = '.' || c = 'e' || c = 'E'

def exponent? (s : List Char) : Option WrittenExponent :=
  let (negative, digits) :=
    match s with
    | '-' :: digits => (true, digits)
    | '+' :: digits => (false, digits)
    | digits => (false, digits)
  if !digits.isEmpty && digits.all Char.isDigit then some ⟨negative, digits⟩ else none

/-- The part of a number after its whole digits. -/
def number? (negative : Bool) (whole : List Char) (s : List Char) : Option WrittenNumber :=
  let (fraction, rest) :=
    match s with
    | '.' :: rest => (some (rest.takeWhile Char.isDigit), rest.dropWhile Char.isDigit)
    | rest => (none, rest)
  if fraction = some [] then none
  else
    match rest with
    | [] => some ⟨negative, whole, fraction, none⟩
    | c :: rest =>
      if c = 'e' || c = 'E' then
        (exponent? rest).map fun e => ⟨negative, whole, fraction, some e⟩
      else none

/-- A number without superfluous leading zeros. -/
def writtenNumber? (s : List Char) : Option WrittenNumber :=
  let (negative, s) :=
    match s with
    | '-' :: s => (true, s)
    | s => (false, s)
  let whole := s.takeWhile Char.isDigit
  if whole.isEmpty || (whole.head? = some '0' && whole.length ≠ 1) then none
  else number? negative whole (s.dropWhile Char.isDigit)

def word? (s : List Char) : Option Token :=
  if s = "null".toList then some .null
  else if s = "true".toList then some (.bool true)
  else if s = "false".toList then some (.bool false)
  else none

def punctuation? : Char → Option Token
  | '[' => some .openArray
  | ']' => some .closeArray
  | '\x7b' => some .openObject
  | '\x7d' => some .closeObject
  | ':' => some .colon
  | ',' => some .comma
  | _ => none

/-- The tokens of a text; there are none if some part of it is no token. -/
def scan : List Char → Option (List Token)
  | [] => some []
  | c :: rest =>
    if isSpace c then scan rest
    else if c = '"' then
      match h : scanString rest with
      | none => none
      | some (pieces, after) =>
        have : after.length < rest.length := length_scanString h
        (scan after).map (.string pieces :: ·)
    else if isNumberChar c && c ≠ 'e' && c ≠ 'E' then
      match writtenNumber? (c :: rest.takeWhile isNumberChar) with
      | none => none
      | some n => (scan (rest.dropWhile isNumberChar)).map (.number n :: ·)
    else if c.isAlpha then
      match word? (c :: rest.takeWhile Char.isAlpha) with
      | none => none
      | some w => (scan (rest.dropWhile Char.isAlpha)).map (w :: ·)
    else
      match punctuation? c with
      | none => none
      | some p => (scan rest).map (p :: ·)
  termination_by s => s.length
  decreasing_by
    all_goals simp only [List.length_cons]
    · omega
    · omega
    · exact Nat.lt_succ_of_le (List.dropWhile_suffix _).length_le
    · exact Nat.lt_succ_of_le (List.dropWhile_suffix _).length_le
    · omega

end HostGauge.Json
