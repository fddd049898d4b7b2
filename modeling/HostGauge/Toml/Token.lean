/-!
The tokens of a TOML text. A carriage return before a line feed belongs to the line feed, and a
byte order mark at the start is skipped.
-/
namespace HostGauge.Toml

inductive Token where
  | space (s : List Char)
  | newline
  | comment
  | equals
  | period
  | comma
  | colon
  | plus
  | openBrace
  | closeBrace
  | openBracket
  | closeBracket
  /-- A run of letters, digits, hyphens and underscores. -/
  | bare (s : List Char)
  | string (s : List Char) (multiline : Bool)
  deriving DecidableEq, Repr

def isSpace (c : Char) : Bool := c = ' ' || c = '\t'

def isBare (c : Char) : Bool := c.isAlphanum || c = '-' || c = '_'

/-- The characters that may stand unescaped in a string. -/
def isStringChar (c : Char) : Bool := c = '\t' || (0x20 ≤ c.toNat && c.toNat ≠ 0x7F)

def isCommentChar (c : Char) : Bool := c = '\t' || 0x20 ≤ c.toNat

/-- Joins each carriage return to a line feed that follows it. -/
def foldLineEnds : List Char → List Char
  | '\r' :: '\n' :: rest => '\n' :: foldLineEnds rest
  | c :: rest => c :: foldLineEnds rest
  | [] => []

def hexValue? (c : Char) : Option Nat :=
  if c.isDigit then some (c.toNat - '0'.toNat)
  else if 'a' ≤ c && c ≤ 'f' then some (c.toNat - 'a'.toNat + 10)
  else if 'A' ≤ c && c ≤ 'F' then some (c.toNat - 'A'.toNat + 10)
  else none

/-- The character whose code point is written in `count` hexadecimal digits. -/
def codePoint? (count : Nat) (s : List Char) : Option (Char × List Char) :=
  let digits := s.take count
  if digits.length < count then none
  else
    match digits.mapM hexValue? with
    | none => none
    | some values =>
      let n := values.foldl (fun n d => 16 * n + d) 0
      if n.isValidChar then some (Char.ofNat n, s.drop count) else none

/-- The character of an escape with one letter. -/
def unescape? : Char → Option Char
  | '"' => some '"'
  | '\\' => some '\\'
  | 'b' => some '\x08'
  | 'f' => some '\x0c'
  | 'n' => some '\n'
  | 'r' => some '\r'
  | 't' => some '\t'
  | _ => none

/-- What follows a backslash at the end of a line: the rest of the line must be blank, and the
blanks at the start of the next lines are skipped with it. -/
def continueLine? (s : List Char) : Option (List Char) :=
  match s.dropWhile isSpace with
  | [] => some []
  | '\n' :: rest => some (rest.dropWhile fun c => isSpace c || c = '\n')
  | _ => none

/-- What an escape stands for, and what follows it. -/
def escape? (multiline : Bool) : List Char → Option (List Char × List Char)
  | 'u' :: rest => (codePoint? 4 rest).map fun p => ([p.1], p.2)
  | 'U' :: rest => (codePoint? 8 rest).map fun p => ([p.1], p.2)
  | c :: rest =>
    match unescape? c with
    | some d => some ([d], rest)
    | none =>
      if multiline && (isSpace c || c = '\n') then
        (continueLine? (c :: rest)).map fun rest => ([], rest)
      else none
  | [] => none

theorem length_dropWhile_le (p : Char → Bool) (s : List Char) :
    (s.dropWhile p).length ≤ s.length := (List.dropWhile_suffix p).length_le

theorem length_continueLine {s r : List Char} (h : continueLine? s = some r) :
    r.length ≤ s.length := by
  unfold continueLine? at h
  have hs := length_dropWhile_le isSpace s
  split at h
  · simp only [Option.some.injEq] at h; subst h; simp
  · rename_i rest heq
    simp only [Option.some.injEq] at h
    have hr := length_dropWhile_le (fun c => isSpace c || c = '\n') rest
    rw [heq, List.length_cons] at hs
    rw [← h]; omega
  · cases h

theorem length_codePoint {count : Nat} {s : List Char} {p : Char × List Char}
    (h : codePoint? count s = some p) : p.2.length ≤ s.length := by
  unfold codePoint? at h
  grind

theorem length_escape {multiline : Bool} {s : List Char} {p : List Char × List Char}
    (h : escape? multiline s = some p) : p.2.length ≤ s.length := by
  unfold escape? at h
  split at h
  · obtain ⟨q, hq, rfl⟩ := Option.map_eq_some_iff.1 h
    exact Nat.le_succ_of_le (length_codePoint hq)
  · obtain ⟨q, hq, rfl⟩ := Option.map_eq_some_iff.1 h
    exact Nat.le_succ_of_le (length_codePoint hq)
  · split at h
    · cases h; simp
    · split at h
      · obtain ⟨r, hr, rfl⟩ := Option.map_eq_some_iff.1 h
        exact length_continueLine hr
      · cases h
  · cases h

/-- How a string is delimited. -/
structure StringForm where
  delimiter : Char
  multiline : Bool
  /-- Backslashes start escapes. -/
  escapes : Bool
  deriving DecidableEq, Repr

/-- The quotes of a closing run that belong to the string, and what follows the run. -/
def closing? (form : StringForm) : List Char → Option (List Char × List Char)
  | a :: rest =>
    if a ≠ form.delimiter then none
    else if !form.multiline then some ([], rest)
    else
      let quotes := rest.takeWhile (· = form.delimiter)
      if quotes.length < 2 then none
      else
        let own := min (quotes.length - 2) 2
        some (List.replicate own form.delimiter, rest.drop (2 + own))
  | [] => none

/-- The rest of a string after its opening quotes, and what follows its closing quotes. Within
several lines up to two quotes may stand before the closing ones. -/
def scanString (form : StringForm) : List Char → Option (List Char × List Char)
  | [] => none
  | c :: rest =>
    match closing? form (c :: rest) with
    | some closed => some closed
    | none =>
      if c = '\n' then
        if form.multiline then (scanString form rest).map fun p => ('\n' :: p.1, p.2) else none
      else if form.escapes && c = '\\' then
        match h : escape? form.multiline rest with
        | none => none
        | some (chars, after) =>
          have : after.length ≤ rest.length := length_escape h
          (scanString form after).map fun p => (chars ++ p.1, p.2)
      else if isStringChar c then (scanString form rest).map fun p => (c :: p.1, p.2)
      else none
  termination_by s => s.length
  decreasing_by all_goals simp only [List.length_cons]; omega

/-- A line feed right after the opening quotes of several lines is no part of the string. -/
def skipFirstNewline : List Char → List Char
  | '\n' :: rest => rest
  | s => s

/-- A string after its first quote. -/
def string? (delimiter : Char) (escapes : Bool) (s : List Char) :
    Option (Token × List Char) :=
  match s with
  | a :: b :: rest =>
    if a = delimiter then
      if b = delimiter then
        (scanString ⟨delimiter, true, escapes⟩ (skipFirstNewline rest)).map fun p =>
          (.string p.1 true, p.2)
      else some (.string [] false, b :: rest)
    else (scanString ⟨delimiter, false, escapes⟩ s).map fun p => (.string p.1 false, p.2)
  | [a] => if a = delimiter then some (.string [] false, []) else none
  | [] => none

def punctuation? : Char → Option Token
  | '\n' => some .newline
  | '=' => some .equals
  | '.' => some .period
  | ',' => some .comma
  | ':' => some .colon
  | '+' => some .plus
  | '\x7b' => some .openBrace
  | '\x7d' => some .closeBrace
  | '[' => some .openBracket
  | ']' => some .closeBracket
  | _ => none

/-- The first token of a text, and what follows it. -/
def next? : List Char → Option (Token × List Char)
  | [] => none
  | c :: rest =>
    if isSpace c then some (.space (c :: rest.takeWhile isSpace), rest.dropWhile isSpace)
    else if c = '#' then some (.comment, rest.dropWhile isCommentChar)
    else if isBare c then some (.bare (c :: rest.takeWhile isBare), rest.dropWhile isBare)
    else if c = '"' then string? '"' true rest
    else if c = '\'' then string? '\'' false rest
    else (punctuation? c).map fun t => (t, rest)

/-- All tokens; `steps` bounds their number. -/
def scanAll : Nat → List Char → Option (List Token)
  | _, [] => some []
  | 0, _ => none
  | steps + 1, s =>
    match next? s with
    | none => none
    | some (token, rest) => (scanAll steps rest).map (token :: ·)

def skipMark : List Char → List Char
  | '\uFEFF' :: rest => rest
  | s => s

/-- The tokens of a text. Each takes at least one character, so there are enough steps. -/
def scan (s : List Char) : Option (List Token) :=
  let s := skipMark (foldLineEnds s)
  scanAll s.length s

end HostGauge.Toml
