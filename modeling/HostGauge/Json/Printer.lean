import HostGauge.Decimal.Layout
import HostGauge.Json.Basic

/-!
Compact JSON text: no blanks, strings with the fewest escapes, floats with the shortest digits
that read back.
-/
namespace HostGauge.Json

/-- Floats always have a point or an exponent; the exponent starts at `10 ^ 16` and below
`10 ^ (-5)`. -/
def floatLayout : Decimal.Layout := ⟨some (-5, 15), true⟩

def hexDigit (n : Nat) : Char := Nat.digitChar n

/-- A character within a string: the quote, the backslash and the controls are escaped. -/
def escape (c : Char) : List Char :=
  match c with
  | '"' => ['\\', '"']
  | '\\' => ['\\', '\\']
  | '\x08' => ['\\', 'b']
  | '\t' => ['\\', 't']
  | '\n' => ['\\', 'n']
  | '\x0c' => ['\\', 'f']
  | '\r' => ['\\', 'r']
  | c =>
    if c.toNat < 0x20 then
      ['\\', 'u', '0', '0', hexDigit (c.toNat / 16), hexDigit (c.toNat % 16)]
    else [c]

def quoted (s : String) : List Char := '"' :: (s.toList.flatMap escape ++ ['"'])

def integerText (n : Int) : List Char :=
  if n < 0 then '-' :: Numeral.write n.natAbs else Numeral.write n.natAbs

def numberText : JsonNumber → List Char
  | .integer n => integerText n
  | .real x => floatLayout.text x

/-- Texts with a comma between them. -/
def commaSeparated : List (List Char) → List Char
  | [] => []
  | [s] => s
  | s :: rest => s ++ ',' :: commaSeparated rest

mutual

/-- The compact text of a value. -/
def compact : Json → List Char
  | null => "null".toList
  | bool true => "true".toList
  | bool false => "false".toList
  | number n => numberText n
  | string s => quoted s
  | array items => '[' :: (commaSeparated (compactItems items) ++ [']'])
  | object members => '\x7b' :: (commaSeparated (compactMembers members) ++ ['\x7d'])

def compactItems : List Json → List (List Char)
  | [] => []
  | v :: rest => compact v :: compactItems rest

def compactMember : String × Json → List Char
  | (name, value) => quoted name ++ ':' :: compact value

def compactMembers : List (String × Json) → List (List Char)
  | [] => []
  | m :: rest => compactMember m :: compactMembers rest

end

end HostGauge.Json
