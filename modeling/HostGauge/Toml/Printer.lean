import HostGauge.Numeral

/-!
TOML text of strings and integers, in the form that is easiest to read: literal quotes wherever
they can hold the string, several lines where it has line feeds, and escapes otherwise.
-/
namespace HostGauge.Toml

/-- The characters that need an escape; a tab and a line feed need none. -/
def needsEscape (c : Char) : Bool :=
  c ≠ '\t' && c ≠ '\n' && (c.toNat < 0x20 || c.toNat = 0x7F)

/-- Three single quotes in a row. -/
def hasTripleQuote : List Char → Bool
  | '\'' :: '\'' :: '\'' :: _ => true
  | _ :: rest => hasTripleQuote rest
  | [] => false

/-- Whether literal quotes can hold a string. -/
def canBeLiteral (s : List Char) : Bool :=
  !s.any needsEscape && !hasTripleQuote s && s.getLast? ≠ some '\''

def hexDigits (n : Nat) : List Char :=
  let digits := (Nat.toDigits 16 n).map Char.toUpper
  List.replicate (4 - digits.length) '0' ++ digits

/-- A character within basic quotes; a line feed stays where there are several lines. -/
def escape (multiline : Bool) (c : Char) : List Char :=
  match c with
  | '\x08' => ['\\', 'b']
  | '\t' => ['\\', 't']
  | '\n' => if multiline then ['\n'] else ['\\', 'n']
  | '\x0c' => ['\\', 'f']
  | '\r' => ['\\', 'r']
  | '"' => ['\\', '"']
  | '\\' => ['\\', '\\']
  | c => if needsEscape c then '\\' :: 'u' :: hexDigits c.toNat else [c]

def literalText (s : List Char) : List Char :=
  if s.contains '\n' then '\'' :: '\'' :: '\'' :: '\n' :: (s ++ ['\'', '\'', '\''])
  else if s.contains '\'' then '\'' :: '\'' :: '\'' :: (s ++ ['\'', '\'', '\''])
  else '\'' :: (s ++ ['\''])

def basicText (s : List Char) : List Char :=
  if s.contains '\n' then '"' :: '"' :: '"' :: '\n' :: (s.flatMap (escape true) ++ ['"', '"', '"'])
  else '"' :: (s.flatMap (escape false) ++ ['"'])

def stringText (s : List Char) : List Char :=
  if canBeLiteral s then literalText s else basicText s

end HostGauge.Toml
