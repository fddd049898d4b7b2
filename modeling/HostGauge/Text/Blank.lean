/-!
Blank characters: the twenty-five characters with the Unicode property White_Space. Fields of
the pseudo-files are separated by them, and values are trimmed of them.
-/
namespace HostGauge.Text

/-- First and last code points of the runs of blank characters, in ascending order. -/
def blankRanges : List (Nat × Nat) :=
  [(0x9, 0xD), (0x20, 0x20), (0x85, 0x85), (0xA0, 0xA0), (0x1680, 0x1680), (0x2000, 0x200A),
   (0x2028, 0x2029), (0x202F, 0x202F), (0x205F, 0x205F), (0x3000, 0x3000)]

def isBlank (c : Char) : Bool :=
  blankRanges.any fun r => r.1 ≤ c.toNat && c.toNat ≤ r.2

/-- Drops the blanks at both ends. -/
def trim (s : List Char) : List Char :=
  ((s.dropWhile isBlank).reverse.dropWhile isBlank).reverse

/-- The maximal runs of characters that are not blank. -/
def fields (s : List Char) : List (List Char) :=
  (s.splitOnP isBlank).filter (!·.isEmpty)

end HostGauge.Text
