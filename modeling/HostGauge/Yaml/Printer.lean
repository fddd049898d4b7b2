import HostGauge.Numeral
import HostGauge.Yaml.Scalar
import HostGauge.Yaml.Schema

/-!
Writing texts as YAML scalars. A text of several lines is written as a block, one that would
stand for something else than itself between single quotes, and any other plainly, as far as the
characters allow it; between double quotes everything can be written.
-/
namespace HostGauge.Yaml

/-! ### What a text contains -/

/-- The characters that need no escape. -/
def isPrintable (c : Char) : Bool :=
  let n := c.toNat
  n = 0xA || (0x20 ≤ n && n ≤ 0x7E) || (0xA0 ≤ n && n ≤ 0xD7FF)
    || (0xE000 ≤ n && n ≤ 0xFFFD && n ≠ 0xFEFF) || 0x10000 ≤ n

/-- Two characters of some classes stand next to each other. -/
def adjacent (p q : Char → Bool) : List Char → Bool
  | a :: b :: rest => (p a && q b) || adjacent p q (b :: rest)
  | _ => false

/-- Only escapes can write the text: it has a special character, or a space before a line end. -/
def needsEscapes (s : List Char) : Bool :=
  s.any (!isPrintable ·) || adjacent (· = ' ') isBreak s

/-- The first characters would start something else than a plain scalar. -/
def startsIndicator : List Char → Bool
  | [] => false
  | c :: rest =>
    "#,[]\x7b\x7d&*!|>'\"%@`".toList.contains c
      || (c = '?' || c = ':' || c = '-') && atBlankOrEnd rest
      || [c, c, c].isPrefixOf (c :: rest) && (c = '-' || c = '.')

/-- A plain scalar would end within the text. -/
def endsInside : List Char → Bool
  | [] => false
  | c :: rest =>
    (c = ':' && atBlankOrEnd rest) || (isBlank c && rest.head? = some '#') || endsInside rest

def hasOuterSpace (s : List Char) : Bool := s.head? = some ' ' || s.getLast? = some ' '

def isPlainAllowed (s : List Char) : Bool :=
  !(s.isEmpty || needsEscapes s || startsIndicator s || endsInside s || hasOuterSpace s
    || s.any isBreak)

def isSingleQuotedAllowed (s : List Char) : Bool :=
  !(needsEscapes s || adjacent isBreak (· = ' ') s)

def isLiteralAllowed (s : List Char) : Bool := !(needsEscapes s || s.getLast? = some ' ')

/-- How a text is written. -/
def ScalarStyle.ofText (s : List Char) : ScalarStyle :=
  if s.contains '\n' then if isLiteralAllowed s then .literal else .doubleQuoted
  else if Schema.isPlainText s && isPlainAllowed s then .plain
  else if isSingleQuotedAllowed s then .singleQuoted
  else .doubleQuoted

/-! ### Writing -/

/-- The spaces in front of a line within a scalar. -/
def indentation : List Char := [' ', ' ']

def indentWidth : Char := '2'

/-- A text between single quotes. `broken` says that a line end was written last; a line is
indented where something follows the line ends. -/
def singleQuotedText : Bool → List Char → List Char
  | broken, [] => (if broken then indentation else []) ++ ['\'']
  | broken, c :: rest =>
    if c = ' ' then c :: singleQuotedText broken rest
    else if isBreak c then c :: singleQuotedText true rest
    else
      (if broken then indentation else []) ++
        (if c = '\'' then ['\'', '\''] else [c]) ++ singleQuotedText false rest

/-- A hexadecimal numeral in capital letters of a fixed number of digits. -/
def hexDigits (count n : Nat) : List Char :=
  let digits := (Nat.toDigits 16 n).map Char.toUpper
  List.replicate (count - digits.length) '0' ++ digits

/-- The letter of a short escape. -/
def escapeLetter? (c : Char) : Option Char :=
  [('\x00', '0'), ('\x07', 'a'), ('\x08', 'b'), ('\t', 't'), ('\n', 'n'), ('\x0b', 'v'),
    ('\x0c', 'f'), ('\r', 'r'), ('\x1b', 'e'), ('"', '"'), ('\\', '\\'), ('\u0085', 'N'),
    ('\u00a0', '_'), ('\u2028', 'L'), ('\u2029', 'P')].lookup c

def escape (c : Char) : List Char :=
  match escapeLetter? c with
  | some letter => ['\\', letter]
  | none =>
    let n := c.toNat
    if n ≤ 0xFF then '\\' :: 'x' :: hexDigits 2 n
    else if n ≤ 0xFFFF then '\\' :: 'u' :: hexDigits 4 n
    else '\\' :: 'U' :: hexDigits 8 n

def doubleQuotedText (s : List Char) : List Char :=
  '"' :: (s.flatMap fun c =>
    if !isPrintable c || isBreak c || c = '"' || c = '\\' then escape c else [c]) ++ ['"']

/-- The indicators of a literal block: its indentation where the text starts with a space or a
line end, and what becomes of the line ends at its end. -/
def literalIndicators (s : List Char) : List Char :=
  let width := if s.head?.any fun c => c = ' ' || isBreak c then [indentWidth] else []
  let chomping :=
    match s.reverse with
    | [] => ['-']
    | last :: before =>
      if !isBreak last then ['-'] else if before.head?.all isBreak then ['+'] else []
  '|' :: (width ++ chomping)

/-- The lines of a literal block, indented where they are not empty, and a line end after the
last one if it has none. `broken` says that a line end was written last. -/
def literalLines : Bool → List Char → List Char
  | broken, [] => if broken then [] else ['\n']
  | broken, c :: rest =>
    if isBreak c then c :: literalLines true rest
    else (if broken then indentation else []) ++ c :: literalLines false rest

/-- A text as the value of a member, with the end of its last line. -/
def scalarText (s : List Char) : List Char :=
  match ScalarStyle.ofText s with
  | .plain => s ++ ['\n']
  | .singleQuoted => '\'' :: (singleQuotedText false s ++ ['\n'])
  | .literal => literalIndicators s ++ '\n' :: literalLines true s
  | _ => doubleQuotedText s ++ ['\n']

end HostGauge.Yaml
