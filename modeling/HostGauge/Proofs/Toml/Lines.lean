import HostGauge.Proofs.Numeral
import HostGauge.Proofs.Text.Run
import HostGauge.Proofs.Toml.Strings
import HostGauge.Toml.Document
import Mathlib.Algebra.Group.Int.Defs
import Mathlib.Data.List.TakeWhile

/-!
Lines of TOML with one pair each, read back. An integer is read as itself up to the largest one
of 64 bits with a sign, and is refused beyond it.
-/
namespace HostGauge.Toml

variable {c : Char} {s t rest : List Char}

/-! ### Integers -/

theorem hexValue?_of_isDigit (h : c.isDigit = true) : hexValue? c = some (c.toNat - '0'.toNat) :=
  if_pos h

theorem isRadixDigit_of_isDigit (h : c.isDigit = true) : isRadixDigit 10 c = true := by
  have hle : c.toNat ≤ '9'.toNat := by
    rw [Char.isDigit, Bool.and_eq_true_iff] at h
    exact of_decide_eq_true h.2
  rw [isRadixDigit, hexValue?_of_isDigit h]
  refine decide_eq_true ?_
  change c.toNat - 48 < 10
  change c.toNat ≤ 57 at hle
  omega

theorem foldl_digits (hs : ∀ c ∈ s, c.isDigit) (start : ℕ) :
    s.foldl (fun (n : ℤ) c => (10 : ℕ) * n + (hexValue? c).getD 0) start =
      (Nat.ofDigitChars 10 s start : ℕ) := by
  induction s generalizing start with
  | nil => rw [List.foldl_nil, Nat.ofDigitChars_nil]
  | cons c s ih =>
      rw [List.foldl_cons, hexValue?_of_isDigit (hs c List.mem_cons_self), Option.getD_some,
        Nat.ofDigitChars_cons, ← ih fun d hd => hs d (List.mem_cons_of_mem _ hd)]
      rfl

theorem separated_of_not_mem (h : '_' ∉ s) : separated s = true := by
  fun_induction separated s with
  | case1 => exact absurd List.mem_cons_self h
  | case2 c => exact decide_eq_true fun hc => h (hc ▸ List.mem_cons_self)
  | case3 c rest _ _ ih => exact ih fun hmem => h (List.mem_cons_of_mem _ hmem)
  | case4 => rfl

theorem digitRun?_of_isDigits (hs : Numeral.IsDigits s) (hzero : s.head? = some '0' → s = ['0']) :
    digitRun? true false 10 s = some (s, []) := by
  have hall : ∀ c ∈ s, (isRadixDigit 10 c || decide (c = '_')) = true := fun c hc => by
    rw [isRadixDigit_of_isDigit (hs.2 c hc), Bool.true_or]
  have hrun := List.takeWhile_eq_self_iff.mpr hall
  have hrest := List.dropWhile_eq_nil_iff.mpr hall
  have hseparated := separated_of_not_mem (Numeral.not_mem_of_isDigits hs (d := '_') rfl)
  obtain ⟨d, ds, rfl⟩ := List.exists_cons_of_ne_nil hs.1
  have hd : d.isDigit = true := hs.2 d List.mem_cons_self
  have hok : isDigitRun false (d :: ds) = true := by
    have hzero' : d = '0' → ds = [] := by
      rintro rfl
      exact (List.cons.inj (hzero rfl)).2
    simpa [isDigitRun, hseparated, Numeral.ne_of_isDigit hd (d := '_') rfl,
      ← imp_iff_not_or] using hzero'
  simp [digitRun?, Numeral.ne_of_isDigit hd (d := '+') rfl,
    Numeral.ne_of_isDigit hd (d := '-') rfl, hrun, hrest, hok]

theorem integerValue?_of_isDigits (hs : Numeral.IsDigits s) :
    integerValue? 10 s = if Numeral.value s < 2 ^ 63 then some (Numeral.value s : ℤ) else none := by
  have hminus : ∀ t, s = '-' :: t → False := by
    rintro t rfl
    exact absurd (hs.2 '-' List.mem_cons_self) (by decide)
  have hplus : ∀ t, s = '+' :: t → False := by
    rintro t rfl
    exact absurd (hs.2 '+' List.mem_cons_self) (by decide)
  have hvalue : s.foldl (fun (n : ℤ) c => (10 : ℕ) * n + (hexValue? c).getD 0) 0 =
      (Numeral.value s : ℤ) := foldl_digits hs.2 0
  have hmin : Int64.minValue.toInt = -2 ^ 63 := rfl
  have hmax : Int64.maxValue.toInt = 2 ^ 63 - 1 := rfl
  rw [integerValue?.eq_3 10 s hminus hplus]
  simp only [Bool.false_eq_true, if_false, hvalue, hmin, hmax]
  refine if_congr ?_ rfl rfl
  simp only [Bool.and_eq_true, decide_eq_true_eq]
  omega

theorem integer?_write (n : ℕ) :
    integer? 10 (Numeral.write n) = if n < 2 ^ 63 then some (n : ℤ) else none := by
  have hdigits := Numeral.isDigits_write n
  have hrun : digitRun? (decide (10 = 10)) (decide (10 ≠ 10)) 10 (Numeral.write n) =
      some (Numeral.write n, []) :=
    digitRun?_of_isDigits hdigits Numeral.eq_zero_of_head?_write
  have hunderscore : '_' ∉ Numeral.write n := Numeral.not_mem_of_isDigits hdigits rfl
  have hplain : withoutUnderscores (Numeral.write n) = Numeral.write n :=
    List.filter_eq_self.mpr fun c hc => decide_eq_true fun h => hunderscore (h ▸ hc)
  have hvalue := integerValue?_of_isDigits hdigits
  rw [Numeral.value_write] at hvalue
  rw [integer?, hrun]
  dsimp only
  rw [hplain, hvalue]

/-! ### Values at the end of a line -/

/-- Where a line ends after it, the token is read as the value, or refused. -/
def ReadsAs (t : Token) (value : Option Value) : Prop :=
  ∀ (steps : ℕ) (ts : List Token),
    value? (steps + 1) (t :: .newline :: ts) = value.map fun v => (v, .newline :: ts)

theorem readsAs_string (s : List Char) (multiline : Bool) :
    ReadsAs (.string s multiline) (some (.string (String.ofList s))) := fun _ _ => by
  rw [value?]
  rfl

theorem specialFloat?_write (n : ℕ) : specialFloat? (Numeral.write n) = none := by
  have hne : ∀ s : List Char, 'n' ∈ s → Numeral.write n ≠ s := fun s hs =>
    Numeral.write_ne rfl hs n
  have hnan : ¬ (decide (Numeral.write n = "nan".toList) ||
      decide (Numeral.write n = "-nan".toList)) = true := by
    simp only [Bool.or_eq_true, decide_eq_true_eq, not_or]
    exact ⟨hne _ (by decide), hne _ (by decide)⟩
  rw [specialFloat?, if_neg (hne _ (by decide)), if_neg (hne _ (by decide)), if_neg hnan]

theorem number?_write (n : ℕ) (ts : List Token) :
    number? (Numeral.write n) (.newline :: ts) =
      (integer? 10 (Numeral.write n)).map fun n => (.integer n, .newline :: ts) := by
  have hletter : ∀ {d : Char}, d.isDigit = false → d ∉ Numeral.write n :=
    Numeral.not_mem_of_isDigits (Numeral.isDigits_write n)
  have hradix : ∀ {d : Char} {t : List Char}, d.isDigit = false →
      Numeral.write n = '0' :: d :: t → False := by
    intro d t hd h
    exact hletter hd (h ▸ List.mem_cons_of_mem _ List.mem_cons_self)
  have hexponent : ¬ ((Numeral.write n).any fun c => c = 'e' || c = 'E') = true := by
    rw [List.any_eq_true]
    rintro ⟨c, hc, hletters⟩
    rcases Bool.or_eq_true_iff.mp hletters with h | h
    · exact hletter (d := 'e') rfl (of_decide_eq_true h ▸ hc)
    · exact hletter (d := 'E') rfl (of_decide_eq_true h ▸ hc)
  rw [number?.eq_6 _ _ (fun _ h => hradix rfl h) (fun _ h => hradix rfl h)
    (fun _ h => hradix rfl h) (by simp) (by simp), if_neg hexponent, specialFloat?_write]

theorem looksLikeDate_write (n : ℕ) : looksLikeDate (Numeral.write n) = false := by
  have hletter : ∀ {d : Char}, d.isDigit = false → (Numeral.write n).contains d = false := by
    intro d hd
    rw [List.contains_eq_mem, decide_eq_false_iff_not]
    exact Numeral.not_mem_of_isDigits (Numeral.isDigits_write n) hd
  have hhyphen : ((Numeral.write n).drop 1).contains '-' = false := by
    rw [List.contains_eq_mem, decide_eq_false_iff_not]
    exact fun h => Numeral.not_mem_of_isDigits (Numeral.isDigits_write n) rfl
      (List.mem_of_mem_drop h)
  simp only [looksLikeDate, hletter (d := 'T') rfl, hletter (d := 't') rfl, hhyphen,
    Bool.false_and, Bool.or_false]

theorem bareValue?_write (n : ℕ) (ts : List Token) :
    bareValue? (Numeral.write n) (.newline :: ts) =
      (if n < 2 ^ 63 then some (.integer n) else none).map fun v => (v, .newline :: ts) := by
  have hne : ∀ {s : List Char} {d : Char}, d.isDigit = false → d ∈ s → Numeral.write n ≠ s :=
    fun hd hs => Numeral.write_ne hd hs n
  have hwords : ¬ (decide (Numeral.write n = "inf".toList) ||
      decide (Numeral.write n = "nan".toList)) = true := by
    simp only [Bool.or_eq_true, decide_eq_true_eq, not_or]
    exact ⟨hne (d := 'n') rfl (by decide), hne (d := 'n') rfl (by decide)⟩
  have hhead : (Numeral.write n).head?.any (fun c => c = '-' || c.isDigit) = true := by
    obtain ⟨d, ds, hcons⟩ := List.exists_cons_of_ne_nil (Numeral.isDigits_write n).1
    have hd : d.isDigit = true :=
      (Numeral.isDigits_write n).2 d (hcons ▸ List.mem_cons_self)
    simp [hcons, hd]
  have hdate : ¬ looksLikeDate (Numeral.write n) = true := by simp [looksLikeDate_write]
  rw [bareValue?, if_neg (hne (d := 't') rfl (by decide)), if_neg (hne (d := 'f') rfl (by decide)),
    if_neg hwords, if_pos hhead, numberOrDate?.eq_2 _ _ (by simp), if_neg hdate,
    number?_write, integer?_write]
  split <;> rfl

theorem readsAs_write (n : ℕ) :
    ReadsAs (.bare (Numeral.write n)) (if n < 2 ^ 63 then some (.integer n) else none) :=
  fun _ ts => by
    rw [value?]
    exact bareValue?_write n ts

/-! ### Pairs on lines of their own -/

/-- The text of a value is scanned as one token where a line ends after it, and the token is
read as the value, or refused. -/
structure WrittenAs (text : List Char) (value : Option Value) : Prop where
  noReturn : '\r' ∉ text
  start : ∃ c rest, text = c :: rest ∧ isSpace c = false
  token : ∃ t : Token, ReadsAs t value ∧
    ∀ rest, next? (text ++ '\n' :: rest) = some (t, '\n' :: rest)

theorem writtenAs_stringText (s : List Char) :
    WrittenAs (stringText s) (some (.string (String.ofList s))) := by
  obtain ⟨multiline, hnext⟩ := next?_stringText s
  exact ⟨return_not_mem_stringText s, stringText_eq_cons s, _, readsAs_string s multiline, hnext⟩

theorem next?_bare (hs : s ≠ []) (hbare : ∀ c ∈ s, isBare c = true)
    (hrest : rest.head?.all (!isBare ·)) : next? (s ++ rest) = some (.bare s, rest) := by
  obtain ⟨c, s, rfl⟩ := List.exists_cons_of_ne_nil hs
  have hc := hbare c List.mem_cons_self
  have hspace : ¬ isSpace c = true := by
    intro h
    rcases Bool.or_eq_true_iff.mp h with h | h <;> rw [of_decide_eq_true h] at hc <;> cases hc
  have hcomment : c ≠ '#' := by
    rintro rfl
    cases hc
  have htail : ∀ d ∈ s, isBare d = true := fun d hd => hbare d (List.mem_cons_of_mem _ hd)
  rw [List.cons_append, next?, if_neg hspace, if_neg hcomment, if_pos hc,
    Text.takeWhile_run htail hrest, Text.dropWhile_run htail hrest]

theorem writtenAs_write (n : ℕ) :
    WrittenAs (Numeral.write n) (if n < 2 ^ 63 then some (.integer n) else none) := by
  have hdigits := Numeral.isDigits_write n
  have hbare : ∀ c ∈ Numeral.write n, isBare c = true := fun c hc => by
    simp [isBare, Char.isAlphanum, hdigits.2 c hc]
  refine ⟨Numeral.not_mem_of_isDigits hdigits rfl, ?_, _, readsAs_write n,
    fun _ => next?_bare hdigits.1 hbare rfl⟩
  obtain ⟨d, ds, hcons⟩ := List.exists_cons_of_ne_nil hdigits.1
  have hd := hdigits.2 d (hcons ▸ List.mem_cons_self)
  exact ⟨d, ds, hcons, by simp [isSpace, Numeral.ne_of_isDigit hd]⟩

/-- A pair as it is written: its name without quotes, the text of its value, and the value that
is read, if there is one. -/
structure WrittenPair where
  name : String
  text : List Char
  value : Option Value
  bare : name.toList ≠ [] ∧ ∀ c ∈ name.toList, isBare c = true
  written : WrittenAs text value

namespace WrittenPair

variable {p : WrittenPair} {ps : List WrittenPair}

def line (p : WrittenPair) : List Char :=
  p.name.toList ++ ' ' :: '=' :: ' ' :: (p.text ++ ['\n'])

/-- The pairs that are read, if none of the values is refused. -/
def values? (ps : List WrittenPair) : Option (List (String × Value)) :=
  ps.mapM fun p => p.value.map fun v => (p.name, v)

theorem return_not_mem_line (p : WrittenPair) : '\r' ∉ p.line := by
  have hname : '\r' ∉ p.name.toList := fun h => absurd (p.bare.2 '\r' h) (by decide)
  simp [line, hname, p.written.noReturn]

/-- The tokens of a line whose value is one token. -/
def tokens (name : String) (t : Token) : List Token :=
  [.bare name.toList, .space [' '], .equals, .space [' '], t, .newline]

theorem scanAll_cons {s rest : List Char} {t : Token} (hs : s ≠ [])
    (h : next? s = some (t, rest)) (steps : ℕ) :
    scanAll (steps + 1) s = (scanAll steps rest).map (t :: ·) := by
  obtain ⟨c, s, rfl⟩ := List.exists_cons_of_ne_nil hs
  rw [scanAll.eq_3 _ _ (by simp), h]

theorem scanAll_line (p : WrittenPair) : ∃ t, ReadsAs t p.value ∧ ∀ steps rest,
    scanAll (steps + 6) (p.line ++ rest) = (scanAll steps rest).map (tokens p.name t ++ ·) := by
  obtain ⟨t, hvalue, hnext⟩ := p.written.token
  refine ⟨t, hvalue, fun steps rest => ?_⟩
  have hname : next? (p.name.toList ++ ' ' :: '=' :: ' ' :: (p.text ++ '\n' :: rest)) =
      some (.bare p.name.toList, ' ' :: '=' :: ' ' :: (p.text ++ '\n' :: rest)) :=
    next?_bare p.bare.1 p.bare.2 rfl
  have hfirst : next? (' ' :: '=' :: ' ' :: (p.text ++ '\n' :: rest)) =
      some (.space [' '], '=' :: ' ' :: (p.text ++ '\n' :: rest)) := rfl
  have hequals : next? ('=' :: ' ' :: (p.text ++ '\n' :: rest)) =
      some (.equals, ' ' :: (p.text ++ '\n' :: rest)) := rfl
  have hsecond : next? (' ' :: (p.text ++ '\n' :: rest)) =
      some (.space [' '], p.text ++ '\n' :: rest) := by
    obtain ⟨c, t, htext, hc⟩ := p.written.start
    have hstop : ¬ isSpace c = true := Bool.eq_false_iff.mp hc
    have hspace : isSpace ' ' = true := rfl
    rw [htext, List.cons_append, next?, if_pos hspace, List.takeWhile_cons_of_neg hstop,
      List.dropWhile_cons_of_neg hstop]
  have hend : next? ('\n' :: rest) = some (.newline, rest) := rfl
  have hline : p.line ++ rest = p.name.toList ++ ' ' :: '=' :: ' ' :: (p.text ++ '\n' :: rest) := by
    simp [line]
  rw [hline, scanAll_cons (by simp) hname, scanAll_cons (by simp) hfirst,
    scanAll_cons (by simp) hequals, scanAll_cons (by simp) hsecond,
    scanAll_cons (by simp) (hnext rest), scanAll_cons (by simp) hend]
  simp [Option.map_map, Function.comp_def, tokens]

theorem line?_tokens {t : Token} {value : Option Value} (h : ReadsAs t value) (name : String)
    (ts : List Token) :
    line? (tokens name t ++ ts) = value.map fun v => (.pair [name] v, ts) := by
  have hkey : dottedKey? (tokens name t ++ ts) =
      some ([name], .equals :: .space [' '] :: t :: .newline :: ts) := by
    simp [dottedKey?, tokens, key?, moreKeys?, skipSpace]
  rw [line?.eq_3 _ (by simp [tokens]) (by simp [tokens]), hkey]
  simp only [skipSpace]
  rw [List.length_cons, Nat.succ_eq_add_one, h]
  cases value <;> rfl

theorem lines?_of_skipLines {ts : List Token} (hne : ts ≠ []) (hskip : skipLines ts = ts)
    (steps : ℕ) : lines? (steps + 1) ts =
      (line? ts).bind fun p => (lines? steps p.2).map (p.1 :: ·) := by
  rw [lines?, hskip]
  split
  case h_1 => exact absurd rfl hne
  case h_2 => cases line? ts <;> rfl

/-- The tokens of lines, with enough steps to find them, and the pairs that are read from them. -/
theorem exists_tokens (ps : List WrittenPair) : ∃ ts : List Token,
    (∀ steps, scanAll (steps + 6 * ps.length) (ps.flatMap line) = some ts) ∧
      ts.length = 6 * ps.length ∧
      ∀ steps, lines? (steps + ps.length + 1) ts =
        (values? ps).map (·.map fun q => .pair [q.1] q.2) := by
  induction ps with
  | nil =>
      refine ⟨[], fun steps => ?_, rfl, fun steps => rfl⟩
      rw [List.flatMap_nil, scanAll]
  | cons p ps ih =>
      obtain ⟨ts, hscan, hlength, hlines⟩ := ih
      obtain ⟨t, hvalue, hline⟩ := scanAll_line p
      refine ⟨tokens p.name t ++ ts, fun steps => ?_, ?_, fun steps => ?_⟩
      · rw [List.flatMap_cons, List.length_cons, Nat.mul_add_one, ← Nat.add_assoc, hline, hscan,
          Option.map_some]
      · rw [List.length_append, hlength, List.length_cons]
        change 6 + _ = _
        omega
      · have hskip : skipLines (tokens p.name t ++ ts) = tokens p.name t ++ ts := by
          simp [tokens, skipLines]
        rw [List.length_cons, ← Nat.add_assoc, lines?_of_skipLines (by simp [tokens]) hskip,
          line?_tokens hvalue, values?, List.mapM_cons]
        cases p.value with
        | none => rfl
        | some v =>
            have hrest := hlines steps
            rw [values?] at hrest
            simp only [Option.map_some, Option.bind_some, hrest]
            cases ps.mapM fun p => p.value.map fun v => (p.name, v) <;> rfl

theorem foldlM_addLine? (qs before : List (String × Value)) :
    (qs.map fun q => Line.pair [q.1] q.2).foldlM Document.addLine? ⟨before, []⟩ =
      some ⟨before ++ qs, []⟩ := by
  induction qs generalizing before with
  | nil => rw [List.append_nil]; rfl
  | cons q qs ih =>
      rw [List.map_cons, List.foldlM_cons, List.append_cons, ← ih]
      rfl

theorem foldLineEnds_eq_self {s : List Char} (h : '\r' ∉ s) : foldLineEnds s = s := by
  fun_induction foldLineEnds s with
  | case1 => exact absurd List.mem_cons_self h
  | case2 c rest _ ih => rw [ih fun hmem => h (List.mem_cons_of_mem _ hmem)]
  | case3 => rfl

/-- A line has a character for each of its tokens. -/
theorem six_mul_length_le (ps : List WrittenPair) : 6 * ps.length ≤ (ps.flatMap line).length := by
  induction ps with
  | nil => exact Nat.le_refl 0
  | cons p ps ih =>
      have hname := List.length_pos_iff.mpr p.bare.1
      obtain ⟨c, s, htext, -⟩ := p.written.start
      have hline : p.line.length = p.name.toList.length + (s.length + 5) := by
        simp [line, htext]
      rw [List.flatMap_cons, List.length_append, List.length_cons, hline]
      omega

/-- The document of pairs on lines of their own; it is refused if one of the values is. -/
theorem parse?_lines (ps : List WrittenPair) :
    Document.parse? (ps.flatMap line) = (values? ps).map fun pairs => { pairs := pairs } := by
  have hreturn : '\r' ∉ ps.flatMap line := by
    intro h
    obtain ⟨p, -, hp⟩ := List.mem_flatMap.mp h
    exact return_not_mem_line p hp
  have hmark : skipMark (ps.flatMap line) = ps.flatMap line := by
    cases ps with
    | nil => rfl
    | cons p ps =>
        obtain ⟨c, s, hname⟩ := List.exists_cons_of_ne_nil p.bare.1
        have hc := p.bare.2 c (hname ▸ List.mem_cons_self)
        have hne : c ≠ '\uFEFF' := by
          rintro rfl
          cases hc
        rw [List.flatMap_cons, line, hname]
        exact skipMark.eq_2 _ fun t ht => hne (List.cons.inj ht).1
  -- a pair has six characters at least and six tokens, so the steps suffice for both readers
  obtain ⟨ts, hscan, hlength, hlines⟩ := exists_tokens ps
  have hsteps := hscan ((ps.flatMap line).length - 6 * ps.length)
  rw [Nat.sub_add_cancel (six_mul_length_le ps)] at hsteps
  have hread := hlines (5 * ps.length)
  rw [show 5 * ps.length + ps.length + 1 = ts.length + 1 by omega] at hread
  rw [Document.parse?, scan, foldLineEnds_eq_self hreturn, hmark, hsteps]
  simp only [Option.bind_eq_bind, Option.bind_some, hread]
  cases values? ps with
  | none => rfl
  | some qs =>
      simp only [Option.map_some, Option.bind_some, foldlM_addLine?]
      exact if_pos rfl

end WrittenPair

end HostGauge.Toml
