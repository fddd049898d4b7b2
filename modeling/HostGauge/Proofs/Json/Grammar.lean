import HostGauge.Json.Document
import HostGauge.Proofs.Numeral
import HostGauge.Proofs.Text.Run

/-!
The grammar of JSON texts: how strings, numbers and documents are written, with blanks wherever
they may stand. Main statement: the reader takes every text of a document to this document, so
neither blanks nor the choice between escapes, letters and signs change what is read.
-/
namespace HostGauge.Json

/-! ### Strings -/

/-- A hexadecimal digit of a value, in small or in capital letters. -/
def IsHexDigit (c : Char) (d : ℕ) : Prop :=
  d < 16 ∧ (c = Nat.digitChar d ∨ c = (Nat.digitChar d).toUpper)

/-- The letters of the short escapes, and what they stand for. -/
def shortEscapes : List (Char × Char) :=
  [('"', '"'), ('\\', '\\'), ('/', '/'), ('b', '\x08'), ('f', '\x0c'), ('n', '\n'), ('r', '\r'),
    ('t', '\t')]

/-- The texts of a piece of a string. -/
inductive Piece.IsText : Piece → List Char → Prop
  | raw {c : Char} (hcontrol : 0x20 ≤ c.toNat) (hquote : c ≠ '"') (hslash : c ≠ '\\') :
      IsText (.plain c) [c]
  | short {e c : Char} (h : (e, c) ∈ shortEscapes) : IsText (.plain c) ['\\', e]
  | unit {a b c d : Char} {i j k l : ℕ} (ha : IsHexDigit a i) (hb : IsHexDigit b j)
      (hc : IsHexDigit c k) (hd : IsHexDigit d l) :
      IsText (.unit (((16 * i + j) * 16 + k) * 16 + l)) ['\\', 'u', a, b, c, d]

/-- The texts of a string, without its quotes. -/
inductive WrittenString.IsText : WrittenString → List Char → Prop
  | nil : IsText [] []
  | cons {p : Piece} {ps : WrittenString} {s t : List Char} (hp : p.IsText s)
      (hps : IsText ps t) : IsText (p :: ps) (s ++ t)

theorem hexValue?_of_isHexDigit {c : Char} {d : ℕ} (h : IsHexDigit c d) :
    hexValue? c = some d := by
  have hdigit : ∀ d < 16, hexValue? (Nat.digitChar d) = some d ∧
      hexValue? (Nat.digitChar d).toUpper = some d := by decide
  obtain ⟨hlt, rfl | rfl⟩ := h
  · exact (hdigit d hlt).1
  · exact (hdigit d hlt).2

theorem scanString_raw {c : Char} (hcontrol : 0x20 ≤ c.toNat) (hquote : c ≠ '"')
    (hslash : c ≠ '\\') (rest : List Char) :
    scanString (c :: rest) = (scanString rest).map fun p => (.plain c :: p.1, p.2) := by
  rw [scanString.eq_5 c rest hquote (fun _ _ _ _ _ h => absurd h hslash)
    (fun _ _ h => absurd h hslash), if_neg (Nat.not_lt.mpr hcontrol)]
  cases scanString rest <;> rfl

theorem scanString_piece {p : Piece} {s : List Char} (h : p.IsText s) (rest : List Char) :
    scanString (s ++ rest) = (scanString rest).map fun q => (p :: q.1, q.2) := by
  cases h with
  | raw hcontrol hquote hslash => exact scanString_raw hcontrol hquote hslash rest
  | @short e c h =>
      have hall : ∀ q ∈ shortEscapes, q.1 ≠ 'u' ∧ unescape? q.1 = some q.2 := by decide
      obtain ⟨hletter, hescape⟩ := hall (e, c) h
      rw [List.cons_append, List.cons_append, List.nil_append,
        scanString.eq_4 e rest (fun _ _ _ _ _ h => absurd h hletter), hescape]
      cases scanString rest <;> rfl
  | unit ha hb hc hd =>
      simp only [List.cons_append, List.nil_append, scanString, unit?, hexValue?_of_isHexDigit ha,
        hexValue?_of_isHexDigit hb, hexValue?_of_isHexDigit hc, hexValue?_of_isHexDigit hd]
      cases scanString rest <;> rfl

theorem scanString_of_isText {p : WrittenString} {s : List Char} (h : p.IsText s)
    (rest : List Char) : scanString (s ++ '"' :: rest) = some (p, rest) := by
  induction h with
  | nil => rw [List.nil_append, scanString]
  | cons hp hps ih => rw [List.append_assoc, scanString_piece hp, ih, Option.map_some]

/-! ### Numbers -/

/-- Digits before the point: there are no superfluous zeros in front. -/
def IsWhole (s : List Char) : Prop := Numeral.IsDigits s ∧ (s.head? = some '0' → s = ['0'])

/-- The texts of a power of ten, after its letter. -/
inductive WrittenExponent.IsText : WrittenExponent → List Char → Prop
  | unsigned {s : List Char} (h : Numeral.IsDigits s) : IsText ⟨false, s⟩ s
  | plus {s : List Char} (h : Numeral.IsDigits s) : IsText ⟨false, s⟩ ('+' :: s)
  | minus {s : List Char} (h : Numeral.IsDigits s) : IsText ⟨true, s⟩ ('-' :: s)

/-- The texts of the part of a number after its whole digits. -/
inductive FractionText : Option (List Char) → List Char → Prop
  | none : FractionText none []
  | some {s : List Char} (h : Numeral.IsDigits s) : FractionText (some s) ('.' :: s)

inductive ExponentText : Option WrittenExponent → List Char → Prop
  | none : ExponentText none []
  | some {letter : Char} {e : WrittenExponent} {s : List Char}
      (hletter : letter = 'e' ∨ letter = 'E') (h : e.IsText s) :
      ExponentText (some e) (letter :: s)

/-- The texts of a number. -/
inductive WrittenNumber.IsText : WrittenNumber → List Char → Prop
  | mk {negative : Bool} {whole f e : List Char} {fraction : Option (List Char)}
      {exponent : Option WrittenExponent} (hwhole : IsWhole whole) (hf : FractionText fraction f)
      (he : ExponentText exponent e) :
      IsText ⟨negative, whole, fraction, exponent⟩
        ((if negative then ['-'] else []) ++ (whole ++ (f ++ e)))

theorem exponent?_of_isText {e : WrittenExponent} {s : List Char} (h : e.IsText s) :
    exponent? s = some e := by
  cases h with
  | unsigned h =>
      have hsign : ∀ c rest, c.isDigit = false → s = c :: rest → False := by
        rintro c rest hc rfl
        exact Numeral.not_mem_of_isDigits h hc List.mem_cons_self
      rw [exponent?.eq_3 s (fun rest => hsign '-' rest rfl) (fun rest => hsign '+' rest rfl)]
      exact if_pos (by simpa [h.1] using h.2)
  | plus h => exact if_pos (by simpa [h.1] using h.2)
  | minus h => exact if_pos (by simpa [h.1] using h.2)

theorem head?_exponentText {exponent : Option WrittenExponent} {e : List Char}
    (he : ExponentText exponent e) : e.head?.all (!Char.isDigit ·) := by
  cases he with
  | none => rfl
  | some hletter => rcases hletter with rfl | rfl <;> rfl

theorem number?_of_isText {negative : Bool} {whole f e : List Char}
    {fraction : Option (List Char)} {exponent : Option WrittenExponent}
    (hf : FractionText fraction f) (he : ExponentText exponent e) :
    number? negative whole (f ++ e) = some ⟨negative, whole, fraction, exponent⟩ := by
  have hletters : ∀ {c : Char}, c = 'e' ∨ c = 'E' → (decide (c = 'e') || decide (c = 'E')) = true :=
    fun h => by simpa using h
  cases hf with
  | none =>
      cases he with
      | none => rfl
      | @some letter _ _ hletter h =>
          have hpoint : letter ≠ '.' := by rcases hletter with rfl | rfl <;> decide
          rw [List.nil_append, number?.eq_3 _ _ _ _ (fun _ hs => hpoint (List.cons.inj hs).1),
            if_neg (by simp), if_pos (hletters hletter), exponent?_of_isText h, Option.map_some]
  | some hdigits =>
      have hstops := head?_exponentText he
      have hnonempty := hdigits.1
      simp only [List.cons_append, number?, Text.takeWhile_run hdigits.2 hstops,
        Text.dropWhile_run hdigits.2 hstops, Option.some.injEq, if_neg hnonempty]
      cases he with
      | none => rfl
      | some hletter h =>
          simp only [if_pos (hletters hletter), exponent?_of_isText h, Option.map_some]

theorem writtenNumber?_of_isText {n : WrittenNumber} {s : List Char} (h : n.IsText s) :
    writtenNumber? s = some n := by
  obtain ⟨hwhole, hf, he⟩ := h
  rename_i negative whole f e fraction exponent
  have hstops : (f ++ e).head?.all (!Char.isDigit ·) := by
    cases hf with
    | some => rfl
    | none => exact head?_exponentText he
  have hzeros : ¬ ((whole.isEmpty || (whole.head? = some '0' && whole.length ≠ 1)) = true) := by
    have hlength : whole.head? = some '0' → whole.length = 1 := by
      intro hzero
      rw [hwhole.2 hzero]
      rfl
    simpa [hwhole.1.1] using hlength
  cases negative with
  | true =>
      simp only [if_true, List.cons_append, List.nil_append, writtenNumber?,
        Text.takeWhile_run hwhole.1.2 hstops, Text.dropWhile_run hwhole.1.2 hstops,
        number?_of_isText hf he, if_neg hzeros]
  | false =>
      have hsign : ∀ rest, whole ++ (f ++ e) ≠ '-' :: rest := by
        intro rest hs
        obtain ⟨d, digits, rfl⟩ := List.exists_cons_of_ne_nil hwhole.1.1
        exact Numeral.ne_of_isDigit (hwhole.1.2 d List.mem_cons_self) rfl (List.cons.inj hs).1
      simp only [Bool.false_eq_true, if_false, List.nil_append]
      rw [writtenNumber?.eq_2 _ hsign, Text.takeWhile_run hwhole.1.2 hstops,
        Text.dropWhile_run hwhole.1.2 hstops, number?_of_isText hf he, if_neg hzeros]

theorem isNumberChar_of_isDigit {c : Char} (h : c.isDigit) : isNumberChar c := by
  simp [isNumberChar, h]

theorem isNumberChar_of_mem {n : WrittenNumber} {s : List Char} (h : n.IsText s) :
    ∀ c ∈ s, isNumberChar c := by
  have hdigits : ∀ {s : List Char}, Numeral.IsDigits s → ∀ c ∈ s, isNumberChar c :=
    fun h c hc => isNumberChar_of_isDigit (h.2 c hc)
  obtain ⟨hwhole, hf, he⟩ := h
  intro c hc
  rcases List.mem_append.mp hc with hc | hc
  · split at hc
    · rw [List.mem_singleton.mp hc]
      rfl
    · cases hc
  rcases List.mem_append.mp hc with hc | hc
  · exact hdigits hwhole.1 c hc
  rcases List.mem_append.mp hc with hc | hc
  · cases hf with
    | none => cases hc
    | some h =>
        rcases List.mem_cons.mp hc with rfl | hc
        · rfl
        · exact hdigits h c hc
  · cases he with
    | none => cases hc
    | some hletter h =>
        rcases List.mem_cons.mp hc with rfl | hc
        · rcases hletter with rfl | rfl <;> rfl
        · cases h with
          | unsigned h => exact hdigits h c hc
          | plus h =>
              rcases List.mem_cons.mp hc with rfl | hc
              · rfl
              · exact hdigits h c hc
          | minus h =>
              rcases List.mem_cons.mp hc with rfl | hc
              · rfl
              · exact hdigits h c hc

/-- A number starts with a digit or a minus sign. -/
theorem head_of_isText {n : WrittenNumber} {s : List Char} (h : n.IsText s) :
    ∃ c rest, s = c :: rest ∧ (c.isDigit ∨ c = '-') := by
  obtain ⟨hwhole, -, -⟩ := h
  rename_i negative whole f e fraction exponent
  cases negative with
  | true => exact ⟨'-', _, rfl, .inr rfl⟩
  | false =>
      obtain ⟨d, rest, rfl⟩ := List.exists_cons_of_ne_nil hwhole.1.1
      exact ⟨d, _, rfl, .inl (hwhole.1.2 d List.mem_cons_self)⟩

/-! ### Documents -/

/-- A run of blanks. -/
def Blanks (s : List Char) : Prop := ∀ c ∈ s, isSpace c

instance (s : List Char) : Decidable (Blanks s) := List.decidableBAll _ s

mutual

/-- The texts of a document. -/
inductive DocumentText : Document → List Char → Prop
  | null : DocumentText .null "null".toList
  | true : DocumentText (.bool true) "true".toList
  | false : DocumentText (.bool false) "false".toList
  | number {n : WrittenNumber} {s : List Char} (h : n.IsText s) : DocumentText (.number n) s
  | string {p : WrittenString} {s : List Char} (h : p.IsText s) :
      DocumentText (.string p) ('"' :: (s ++ ['"']))
  | emptyArray {s : List Char} (h : Blanks s) : DocumentText (.array []) ('[' :: (s ++ [']']))
  | array {items : List Document} {s : List Char} (h : ItemsText items s) :
      DocumentText (.array items) ('[' :: (s ++ [']']))
  | emptyObject {s : List Char} (h : Blanks s) :
      DocumentText (.object []) ('\x7b' :: (s ++ ['\x7d']))
  | object {members : List (WrittenString × Document)} {s : List Char}
      (h : MembersText members s) : DocumentText (.object members) ('\x7b' :: (s ++ ['\x7d']))

/-- The texts of a document with blanks around it. -/
inductive PaddedText : Document → List Char → Prop
  | mk {d : Document} {a s b : List Char} (ha : Blanks a) (h : DocumentText d s)
      (hb : Blanks b) : PaddedText d (a ++ (s ++ b))

/-- The texts of the items of an array, with a comma between them. -/
inductive ItemsText : List Document → List Char → Prop
  | last {d : Document} {s : List Char} (h : PaddedText d s) : ItemsText [d] s
  | more {d : Document} {rest : List Document} {s t : List Char} (h : PaddedText d s)
      (hrest : ItemsText rest t) : ItemsText (d :: rest) (s ++ ',' :: t)

/-- The texts of a member of an object, with blanks around its name and its value. -/
inductive MemberText : WrittenString × Document → List Char → Prop
  | mk {name : WrittenString} {d : Document} {a s b t : List Char} (ha : Blanks a)
      (hname : name.IsText s) (hb : Blanks b) (hd : PaddedText d t) :
      MemberText (name, d) (a ++ '"' :: (s ++ '"' :: (b ++ ':' :: t)))

/-- The texts of the members of an object, with a comma between them. -/
inductive MembersText : List (WrittenString × Document) → List Char → Prop
  | last {m : WrittenString × Document} {s : List Char} (h : MemberText m s) : MembersText [m] s
  | more {m : WrittenString × Document} {rest : List (WrittenString × Document)}
      {s t : List Char} (h : MemberText m s) (hrest : MembersText rest t) :
      MembersText (m :: rest) (s ++ ',' :: t)

end

mutual

/-- The tokens of a document. -/
def Document.tokens : Document → List Token
  | null => [.null]
  | bool b => [.bool b]
  | number n => [.number n]
  | string s => [.string s]
  | array items => .openArray :: (itemsTokens items ++ [.closeArray])
  | object members => .openObject :: (membersTokens members ++ [.closeObject])

def Document.itemsTokens : List Document → List Token
  | [] => []
  | d :: rest => d.tokens ++ furtherItems rest

def Document.furtherItems : List Document → List Token
  | [] => []
  | d :: rest => .comma :: (d.tokens ++ furtherItems rest)

def Document.memberTokens : WrittenString × Document → List Token
  | (name, d) => .string name :: .colon :: d.tokens

def Document.membersTokens : List (WrittenString × Document) → List Token
  | [] => []
  | m :: rest => memberTokens m ++ furtherMembers rest

def Document.furtherMembers : List (WrittenString × Document) → List Token
  | [] => []
  | m :: rest => .comma :: (memberTokens m ++ furtherMembers rest)

end

/-! ### Texts into tokens -/

/-- The text does not go on with a number or a word. -/
def Stops (s : List Char) : Prop := s.head?.all fun c => !isNumberChar c && !c.isAlpha

theorem isSpace_cases {c : Char} (h : isSpace c) : c = ' ' ∨ c = '\t' ∨ c = '\n' ∨ c = '\r' := by
  simpa [isSpace, or_assoc] using h

theorem stops_append {s rest : List Char} (h : Blanks s) (hrest : Stops rest) :
    Stops (s ++ rest) := by
  cases s with
  | nil => exact hrest
  | cons c s =>
      rcases isSpace_cases (h c List.mem_cons_self) with rfl | rfl | rfl | rfl <;> rfl

theorem scan_blanks {s : List Char} (h : Blanks s) (rest : List Char) :
    scan (s ++ rest) = scan rest := by
  induction s with
  | nil => rfl
  | cons c s ih =>
      rw [List.cons_append, scan, if_pos (h c List.mem_cons_self)]
      exact ih fun c hc => h c (List.mem_cons_of_mem _ hc)

theorem scan_punctuation {c : Char} {t : Token} (h : punctuation? c = some t)
    (rest : List Char) : scan (c :: rest) = (scan rest).map (t :: ·) := by
  have hc : isSpace c = false ∧ c ≠ '"' ∧ isNumberChar c = false ∧ c.isAlpha = false := by
    unfold punctuation? at h
    split at h <;> first | (exact ⟨rfl, by decide, rfl, rfl⟩) | cases h
  rw [scan]
  simp [hc, h]

theorem scan_string {p : WrittenString} {s : List Char} (h : p.IsText s) (rest : List Char) :
    scan ('"' :: (s ++ '"' :: rest)) = (scan rest).map (.string p :: ·) := by
  rw [scan, if_neg (by decide), if_pos rfl]
  split
  case h_1 hnone => rw [scanString_of_isText h] at hnone; cases hnone
  case h_2 pieces after hsome =>
    rw [scanString_of_isText h] at hsome
    cases hsome
    rfl

theorem scan_number {n : WrittenNumber} {s rest : List Char} (h : n.IsText s)
    (hrest : Stops rest) : scan (s ++ rest) = (scan rest).map (.number n :: ·) := by
  have hchars := isNumberChar_of_mem h
  have hstops : rest.head?.all (!isNumberChar ·) := by
    cases rest with
    | nil => rfl
    | cons c rest => exact (Bool.and_eq_true_iff.mp hrest).1
  have hwritten := writtenNumber?_of_isText h
  obtain ⟨c, s, rfl, hc⟩ := head_of_isText h
  have hstart : isSpace c = false ∧ c ≠ '"' ∧ (isNumberChar c && c ≠ 'e' && c ≠ 'E') = true := by
    rcases hc with hdigit | rfl
    · have hne : ∀ d : Char, d.isDigit = false → c ≠ d := fun d => Numeral.ne_of_isDigit hdigit
      simp [isSpace, isNumberChar, hdigit, hne ' ' rfl, hne '\t' rfl, hne '\n' rfl, hne '\r' rfl,
        hne '"' rfl, hne 'e' rfl, hne 'E' rfl]
    · decide
  have htail : ∀ d ∈ s, isNumberChar d := fun d hd => hchars d (List.mem_cons_of_mem _ hd)
  rw [List.cons_append, scan, if_neg (by simp [hstart.1]), if_neg hstart.2.1, if_pos hstart.2.2,
    Text.takeWhile_run htail hstops, Text.dropWhile_run htail hstops, hwritten]

theorem scan_word {c : Char} {s : List Char} {t : Token} (h : word? (c :: s) = some t)
    (hc : c = 'n' ∨ c = 't' ∨ c = 'f') (hs : ∀ d ∈ s, d.isAlpha) {rest : List Char}
    (hrest : Stops rest) : scan (c :: (s ++ rest)) = (scan rest).map (t :: ·) := by
  have hstops : rest.head?.all (!Char.isAlpha ·) := by
    cases rest with
    | nil => rfl
    | cons c rest => exact (Bool.and_eq_true_iff.mp hrest).2
  rw [scan, Text.takeWhile_run hs hstops, Text.dropWhile_run hs hstops, h]
  rcases hc with rfl | rfl | rfl <;> rfl

theorem ItemsText.exists_cons {items : List Document} {s : List Char} (h : ItemsText items s) :
    ∃ d rest, items = d :: rest := by
  cases h <;> exact ⟨_, _, rfl⟩

theorem MembersText.exists_cons {members : List (WrittenString × Document)} {s : List Char}
    (h : MembersText members s) : ∃ m rest, members = m :: rest := by
  cases h <;> exact ⟨_, _, rfl⟩

mutual

theorem scan_document {d : Document} {s rest : List Char} (h : DocumentText d s)
    (hrest : Stops rest) : scan (s ++ rest) = (scan rest).map (d.tokens ++ ·) := by
  have hbracket : Stops (']' :: rest) := rfl
  have hbrace : Stops ('\x7d' :: rest) := rfl
  match h with
  | .null => exact scan_word rfl (.inl rfl) (List.all_eq_true.mp rfl) hrest
  | .true => exact scan_word rfl (.inr (.inl rfl)) (List.all_eq_true.mp rfl) hrest
  | .false => exact scan_word rfl (.inr (.inr rfl)) (List.all_eq_true.mp rfl) hrest
  | .number h => exact scan_number h hrest
  | .string h =>
      rw [List.cons_append, List.append_assoc]
      exact scan_string h rest
  | .emptyArray h =>
      rw [List.cons_append, scan_punctuation rfl, List.append_assoc, scan_blanks h,
        List.singleton_append, scan_punctuation rfl, Option.map_map]
      rfl
  | .array h =>
      rw [List.cons_append, scan_punctuation rfl, List.append_assoc, List.singleton_append,
        scan_items h hbracket, scan_punctuation rfl, Option.map_map, Option.map_map]
      simp [Document.tokens, Function.comp_def]
  | .emptyObject h =>
      rw [List.cons_append, scan_punctuation rfl, List.append_assoc, scan_blanks h,
        List.singleton_append, scan_punctuation rfl, Option.map_map]
      rfl
  | .object h =>
      rw [List.cons_append, scan_punctuation rfl, List.append_assoc, List.singleton_append,
        scan_members h hbrace, scan_punctuation rfl, Option.map_map, Option.map_map]
      simp [Document.tokens, Function.comp_def]

theorem scan_padded {d : Document} {s rest : List Char} (h : PaddedText d s)
    (hrest : Stops rest) : scan (s ++ rest) = (scan rest).map (d.tokens ++ ·) := by
  match h with
  | .mk ha h hb =>
      rw [List.append_assoc, scan_blanks ha, List.append_assoc,
        scan_document h (stops_append hb hrest), scan_blanks hb]

theorem scan_items {items : List Document} {s rest : List Char} (h : ItemsText items s)
    (hrest : Stops rest) :
    scan (s ++ rest) = (scan rest).map (Document.itemsTokens items ++ ·) := by
  match h with
  | .last h =>
      rw [scan_padded h hrest]
      simp [Document.itemsTokens, Document.furtherItems]
  | .more (t := t) h hitems =>
      have hcomma : Stops (',' :: (t ++ rest)) := rfl
      rw [List.append_assoc, List.cons_append, scan_padded h hcomma, scan_punctuation rfl,
        scan_items hitems hrest, Option.map_map, Option.map_map]
      obtain ⟨d, ds, rfl⟩ := hitems.exists_cons
      simp [Document.itemsTokens, Document.furtherItems, Function.comp_def]

theorem scan_member {m : WrittenString × Document} {s rest : List Char} (h : MemberText m s)
    (hrest : Stops rest) :
    scan (s ++ rest) = (scan rest).map (Document.memberTokens m ++ ·) := by
  match m, h with
  | (name, d), .mk ha hname hb hd =>
      simp only [List.append_assoc, List.cons_append]
      rw [scan_blanks ha, scan_string hname, scan_blanks hb, scan_punctuation rfl,
        scan_padded hd hrest, Option.map_map, Option.map_map]
      simp [Document.memberTokens, Function.comp_def]

theorem scan_members {members : List (WrittenString × Document)} {s rest : List Char}
    (h : MembersText members s) (hrest : Stops rest) :
    scan (s ++ rest) = (scan rest).map (Document.membersTokens members ++ ·) := by
  match h with
  | .last h =>
      rw [scan_member h hrest]
      simp [Document.membersTokens, Document.furtherMembers]
  | .more (t := t) h hmembers =>
      have hcomma : Stops (',' :: (t ++ rest)) := rfl
      rw [List.append_assoc, List.cons_append, scan_member h hcomma, scan_punctuation rfl,
        scan_members hmembers hrest, Option.map_map, Option.map_map]
      obtain ⟨m, ms, rfl⟩ := hmembers.exists_cons
      simp [Document.membersTokens, Document.furtherMembers, Function.comp_def]

end

/-! ### Tokens into documents -/

namespace Document

open State

theorem State.run_cons {state next : State} {t : Token} (h : state.step t = some next)
    (ts : List Token) : state.run (t :: ts) = next.run ts := by
  rw [State.run, h]

/-- The first token of a document does not close the array before it. -/
theorem run_firstItem (d : Document) (frames : List Frame) (ts : List Token) :
    State.run ⟨frames, .firstItem⟩ (d.tokens ++ ts) =
      State.run ⟨frames, .value⟩ (d.tokens ++ ts) := by
  cases d <;> rfl

mutual

/-- Where a value is expected, the tokens of a document are read as this document. -/
theorem run_tokens (d : Document) (frames : List Frame) (ts : List Token) :
    State.run ⟨frames, .value⟩ (d.tokens ++ ts) = (complete d frames).bind (·.run ts) := by
  match d with
  | null | bool _ | number _ | string _ =>
      rw [tokens, List.singleton_append, State.run]
      simp only [State.step, State.begin]
      cases complete _ frames <;> rfl
  | array [] =>
      simp only [tokens, itemsTokens, List.nil_append, List.cons_append, State.run, State.step,
        State.begin, State.close, List.reverse_nil]
      cases complete _ frames <;> rfl
  | array (d :: rest) =>
      have hclose : State.run ⟨.items [] :: frames, .value⟩
          (d.tokens ++ (furtherItems rest ++ .closeArray :: ts)) = _ :=
        run_tokens d (.items [] :: frames) _
      have hitems := run_furtherItems rest [d] frames ts
      simp only [tokens, itemsTokens, List.cons_append, List.append_assoc, List.nil_append]
      rw [State.run_cons rfl, run_firstItem, hclose]
      exact hitems
  | object [] =>
      simp only [tokens, membersTokens, List.nil_append, List.cons_append, State.run, State.step,
        State.begin, State.close, List.reverse_nil]
      cases complete _ frames <;> rfl
  | object ((name, d) :: rest) =>
      have hclose := run_tokens d (.member [] name :: frames)
        (furtherMembers rest ++ .closeObject :: ts)
      have hmembers := run_furtherMembers rest [(name, d)] frames ts
      simp only [tokens, membersTokens, memberTokens, List.cons_append, List.append_assoc,
        List.nil_append]
      rw [State.run_cons rfl, State.run_cons rfl, State.run_cons rfl, hclose]
      exact hmembers

theorem run_furtherItems (items before : List Document) (frames : List Frame) (ts : List Token) :
    State.run ⟨.items before :: frames, .more⟩ (furtherItems items ++ .closeArray :: ts) =
      (complete (.array (before.reverse ++ items)) frames).bind (·.run ts) := by
  match items with
  | [] =>
      simp only [furtherItems, List.nil_append, List.append_nil, State.run, State.step,
        State.close]
      cases complete _ frames <;> rfl
  | d :: rest =>
      have hclose := run_tokens d (.items before :: frames) (furtherItems rest ++ .closeArray :: ts)
      have hitems := run_furtherItems rest (d :: before) frames ts
      simp only [List.reverse_cons, List.append_assoc, List.singleton_append] at hitems
      simp only [furtherItems, List.cons_append, List.append_assoc]
      rw [State.run_cons rfl, hclose]
      exact hitems

theorem run_furtherMembers (members before : List (WrittenString × Document))
    (frames : List Frame) (ts : List Token) :
    State.run ⟨.members before :: frames, .more⟩ (furtherMembers members ++ .closeObject :: ts) =
      (complete (.object (before.reverse ++ members)) frames).bind (·.run ts) := by
  match members with
  | [] =>
      simp only [furtherMembers, List.nil_append, List.append_nil, State.run, State.step,
        State.close]
      cases complete _ frames <;> rfl
  | (name, d) :: rest =>
      have hclose := run_tokens d (.member before name :: frames)
        (furtherMembers rest ++ .closeObject :: ts)
      have hmembers := run_furtherMembers rest ((name, d) :: before) frames ts
      simp only [List.reverse_cons, List.append_assoc, List.singleton_append] at hmembers
      simp only [furtherMembers, memberTokens, List.cons_append, List.append_assoc]
      rw [State.run_cons rfl, State.run_cons rfl, State.run_cons rfl, hclose]
      exact hmembers

end

theorem ofTokens?_tokens (d : Document) : ofTokens? d.tokens = some d := by
  have h := run_tokens d [] []
  rw [List.append_nil] at h
  rw [ofTokens?, h]
  rfl

/-- The reader takes every text of a document to this document. -/
theorem parse?_of_paddedText {d : Document} {s : List Char} (h : PaddedText d s) :
    parse? s = some d := by
  have hend : Stops [] := rfl
  have hscan := scan_padded h hend
  rw [List.append_nil] at hscan
  rw [parse?, hscan]
  simp [scan, ofTokens?_tokens]

end Document

end HostGauge.Json
