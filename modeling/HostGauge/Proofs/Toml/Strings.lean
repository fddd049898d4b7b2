import HostGauge.Toml.Printer
import HostGauge.Toml.Token
import Mathlib.Data.List.Basic

/-!
Strings as they are written in TOML, read back. The four forms are literal and basic quotes, on
one line and on several; each holds the strings that it is chosen for: within literal quotes
nothing closes the string too early, and within basic quotes every character is written so that
it is read as itself.
-/
namespace HostGauge.Toml

variable {form : StringForm} {c : Char} {s t rest : List Char}

/-! ### One step of the scanner -/

theorem scanString_of_closing {closed : List Char × List Char} (h : closing? form s = some closed) :
    scanString form s = some closed := by
  cases s with
  | nil => cases h
  | cons c rest => rw [scanString, h]

theorem scanString_newline (hform : form.multiline = true)
    (hopen : closing? form ('\n' :: t) = none) :
    scanString form ('\n' :: t) = (scanString form t).map fun p => ('\n' :: p.1, p.2) := by
  rw [scanString, hopen]
  simp only [if_pos, hform]

theorem scanString_char (hopen : closing? form (c :: t) = none) (hline : c ≠ '\n')
    (hescape : form.escapes = true → c ≠ '\\') (hc : isStringChar c = true) :
    scanString form (c :: t) = (scanString form t).map fun p => (c :: p.1, p.2) := by
  have hno : ¬ (form.escapes && decide (c = '\\')) = true := by
    intro h
    obtain ⟨hform, hslash⟩ := Bool.and_eq_true_iff.mp h
    exact hescape hform (of_decide_eq_true hslash)
  rw [scanString, hopen]
  simp only [if_neg hline, if_neg hno, if_pos hc]

theorem scanString_escape {u after : List Char} (hopen : closing? form ('\\' :: t) = none)
    (hform : form.escapes = true) (h : escape? form.multiline t = some (u, after)) :
    scanString form ('\\' :: t) = (scanString form after).map fun p => (u ++ p.1, p.2) := by
  rw [scanString, hopen]
  have hyes : (form.escapes && decide (('\\' : Char) = '\\')) = true := by simp [hform]
  dsimp only
  rw [if_neg (by decide), if_pos hyes]
  split
  case h_1 hnone => rw [h] at hnone; cases hnone
  case h_2 chars' after' hsome =>
    rw [h] at hsome
    cases hsome
    rfl

theorem closing?_of_ne (h : c ≠ form.delimiter) : closing? form (c :: t) = none := if_pos h

theorem closing?_line (hform : form.multiline = false) :
    closing? form (form.delimiter :: rest) = some ([], rest) := by
  rw [closing?, if_neg (by simp), hform]
  rfl

theorem closing?_several (hform : form.multiline = true)
    (hrest : rest.head?.all (· ≠ form.delimiter)) :
    closing? form (form.delimiter :: form.delimiter :: form.delimiter :: rest) =
      some ([], rest) := by
  have hquotes : rest.takeWhile (· = form.delimiter) = [] := by
    cases rest with
    | nil => rfl
    | cons c rest => exact List.takeWhile_cons_of_neg (by simpa using hrest)
  rw [closing?, if_neg (by simp), hform]
  simp [hquotes]

/-! ### Literal quotes -/

theorem isStringChar_of_not_needsEscape (h : needsEscape c = false) (hline : c ≠ '\n') :
    isStringChar c = true := by
  simp only [needsEscape, Bool.and_eq_false_iff, Bool.or_eq_false_iff, decide_eq_false_iff_not,
    not_not, isStringChar, Bool.or_eq_true, decide_eq_true_eq, Bool.and_eq_true] at h ⊢
  rcases h with (htab | hfeed) | hcontrol
  · exact .inl htab
  · exact absurd hfeed hline
  · exact .inr ⟨Nat.not_lt.mp hcontrol.1, hcontrol.2⟩

theorem scanString_literal_line (hs : ∀ c ∈ s, needsEscape c = false ∧ c ≠ '\n' ∧ c ≠ '\'') :
    scanString ⟨'\'', false, false⟩ (s ++ '\'' :: rest) = some (s, rest) := by
  induction s with
  | nil => exact scanString_of_closing (closing?_line rfl)
  | cons c s ih =>
      obtain ⟨hescape, hline, hquote⟩ := hs c List.mem_cons_self
      rw [List.cons_append, scanString_char (closing?_of_ne hquote) hline
        (fun h => absurd h Bool.false_ne_true) (isStringChar_of_not_needsEscape hescape hline),
        ih fun d hd => hs d (List.mem_cons_of_mem _ hd), Option.map_some]

theorem hasTripleQuote_of_cons (h : hasTripleQuote (c :: s) = false) :
    hasTripleQuote s = false := by
  unfold hasTripleQuote at h
  split at h
  case h_1 => cases h
  case h_2 heq => rwa [(List.cons.inj heq).2]
  case h_3 heq => cases heq

/-- Up to two quotes in a row, not at the end, close no literal string of several lines. -/
theorem closing?_literal (htriple : hasTripleQuote (c :: s) = false)
    (hlast : (c :: s).getLast? ≠ some '\'') :
    closing? ⟨'\'', true, false⟩ (c :: (s ++ '\'' :: '\'' :: '\'' :: rest)) = none := by
  by_cases hc : c = '\''
  case neg => exact closing?_of_ne hc
  case pos =>
    subst hc
    have hfew : ∀ t, ((s ++ t).takeWhile (· = '\'')).length < 2 := by
      intro t
      match s with
      | [] => exact absurd rfl hlast
      | [a] =>
          have ha : a ≠ '\'' := fun ha => hlast (congrArg some ha)
          simp [ha]
      | a :: b :: s =>
          by_cases ha : a = '\''
          · have hb : b ≠ '\'' := by
              rintro rfl
              rw [ha] at htriple
              cases htriple
            simp [ha, hb]
          · simp [ha]
    rw [closing?, if_neg (by simp)]
    simp only [Bool.not_true, Bool.false_eq_true, if_false, if_pos (hfew _)]

theorem scanString_literal_lines (hs : ∀ c ∈ s, needsEscape c = false)
    (htriple : hasTripleQuote s = false) (hlast : s.getLast? ≠ some '\'')
    (hrest : rest.head?.all (· ≠ '\'')) :
    scanString ⟨'\'', true, false⟩ (s ++ '\'' :: '\'' :: '\'' :: rest) = some (s, rest) := by
  induction s with
  | nil => exact scanString_of_closing (closing?_several rfl hrest)
  | cons c s ih =>
      have hopen : closing? ⟨'\'', true, false⟩ (c :: (s ++ '\'' :: '\'' :: '\'' :: rest)) =
          none := closing?_literal htriple hlast
      have hlast' : s.getLast? ≠ some '\'' := by
        cases s with
        | nil => exact fun h => nomatch h
        | cons d s => rwa [List.getLast?_cons_cons] at hlast
      have hs' := ih (fun d hd => hs d (List.mem_cons_of_mem _ hd))
        (hasTripleQuote_of_cons htriple) hlast'
      rw [List.cons_append]
      by_cases hline : c = '\n'
      · subst hline
        rw [scanString_newline rfl hopen, hs', Option.map_some]
      · rw [scanString_char hopen hline (fun h => absurd h Bool.false_ne_true)
          (isStringChar_of_not_needsEscape (hs c List.mem_cons_self) hline), hs', Option.map_some]

/-! ### Basic quotes -/

theorem codePoint?_hexDigits (h : c.toNat < 0x80) :
    codePoint? 4 (hexDigits c.toNat ++ t) = some (c, t) := by
  have hdigits : ∀ n < 0x80, (hexDigits n).length = 4 ∧ ((hexDigits n).mapM hexValue?).map
      (·.foldl (fun n d => 16 * n + d) 0) = some n := by decide
  obtain ⟨hlength, hvalue⟩ := hdigits c.toNat h
  obtain ⟨values, hvalues, hn⟩ := Option.map_eq_some_iff.mp hvalue
  have hvalid : c.toNat.isValidChar := c.valid
  rw [codePoint?, ← hlength, List.take_left, List.drop_left, if_neg (Nat.lt_irrefl _), hvalues]
  simp only [hn, if_pos hvalid, Char.ofNat_toNat]

/-- Within basic quotes a character is written so that it is read as itself. -/
theorem scanString_basic_char (multiline : Bool) (c : Char) (t : List Char) :
    scanString ⟨'"', multiline, true⟩ (escape multiline c ++ t) =
      (scanString ⟨'"', multiline, true⟩ t).map fun p => (c :: p.1, p.2) := by
  have hopen : ∀ {d : Char} {t : List Char}, d ≠ '"' →
      closing? ⟨'"', multiline, true⟩ (d :: t) = none := fun h => closing?_of_ne h
  have hletter : ∀ {e d : Char}, unescape? e = some d → e ≠ 'u' → e ≠ 'U' →
      scanString ⟨'"', multiline, true⟩ ('\\' :: e :: t) =
        (scanString ⟨'"', multiline, true⟩ t).map fun p => (d :: p.1, p.2) := by
    intro e d he hu hU
    have hescape : escape? multiline (e :: t) = some ([d], t) := by
      rw [escape?.eq_3 _ _ _ hu hU, he]
    exact scanString_escape (hopen (by decide)) rfl hescape
  unfold escape
  split
  case h_1 => exact hletter rfl (by decide) (by decide)
  case h_2 => exact hletter rfl (by decide) (by decide)
  case h_3 =>
    cases multiline with
    | true => exact scanString_newline rfl (hopen (by decide))
    | false => exact hletter rfl (by decide) (by decide)
  case h_4 => exact hletter rfl (by decide) (by decide)
  case h_5 => exact hletter rfl (by decide) (by decide)
  case h_6 => exact hletter rfl (by decide) (by decide)
  case h_7 => exact hletter rfl (by decide) (by decide)
  case h_8 hfeed _ _ hquote hslash =>
    split
    case isTrue hescape =>
      have hcontrol : c.toNat < 0x80 := by
        simp only [needsEscape, Bool.and_eq_true, Bool.or_eq_true, decide_eq_true_eq] at hescape
        omega
      refine scanString_escape (u := [c]) (hopen (by decide)) rfl ?_
      simp [escape?, codePoint?_hexDigits hcontrol]
    case isFalse hescape =>
      exact scanString_char (hopen hquote) hfeed (fun _ => hslash)
        (isStringChar_of_not_needsEscape (Bool.not_eq_true _ ▸ hescape) hfeed)

theorem scanString_basic (multiline : Bool) (s : List Char) (t : List Char) :
    scanString ⟨'"', multiline, true⟩ (s.flatMap (escape multiline) ++ t) =
      (scanString ⟨'"', multiline, true⟩ t).map fun p => (s ++ p.1, p.2) := by
  induction s with
  | nil => simp
  | cons c s ih =>
      rw [List.flatMap_cons, List.append_assoc, scanString_basic_char, ih, Option.map_map]
      rfl

/-! ### Strings -/

theorem string?_line {delimiter : Char} {escapes : Bool} (hc : c ≠ delimiter) (ht : t ≠ []) :
    string? delimiter escapes (c :: t) =
      (scanString ⟨delimiter, false, escapes⟩ (c :: t)).map fun p => (.string p.1 false, p.2) := by
  obtain ⟨d, t, rfl⟩ := List.exists_cons_of_ne_nil ht
  rw [string?, if_neg hc]

theorem string?_several {delimiter : Char} {escapes : Bool} :
    string? delimiter escapes (delimiter :: delimiter :: t) =
      (scanString ⟨delimiter, true, escapes⟩ (skipFirstNewline t)).map
        fun p => (.string p.1 true, p.2) := by
  rw [string?, if_pos rfl, if_pos rfl]

theorem string?_literalText (hs : canBeLiteral s = true) :
    ∃ multiline, ∀ rest, string? '\'' false ((literalText s).drop 1 ++ '\n' :: rest) =
      some (.string s multiline, '\n' :: rest) := by
  simp only [canBeLiteral, Bool.and_eq_true, Bool.not_eq_true', List.any_eq_false,
    decide_eq_true_eq] at hs
  obtain ⟨⟨hescape, htriple⟩, hlast⟩ := hs
  have hchars : ∀ c ∈ s, needsEscape c = false := fun c hc => Bool.not_eq_true _ ▸ hescape c hc
  unfold literalText
  split
  case isTrue =>
    refine ⟨true, fun rest => ?_⟩
    simp only [List.drop_succ_cons, List.drop_zero, List.cons_append, List.append_assoc,
      List.nil_append]
    rw [string?_several, skipFirstNewline,
      scanString_literal_lines hchars htriple hlast rfl, Option.map_some]
  case isFalse hline =>
    split
    case isTrue hquote =>
      refine ⟨true, fun rest => ?_⟩
      have hfirst : skipFirstNewline (s ++ '\'' :: '\'' :: '\'' :: '\n' :: rest) =
          s ++ '\'' :: '\'' :: '\'' :: '\n' :: rest := by
        cases s with
        | nil => rfl
        | cons c s =>
            refine skipFirstNewline.eq_2 _ fun t ht => hline ?_
            rw [(List.cons.inj ht).1]
            simp
      simp only [List.drop_succ_cons, List.drop_zero, List.cons_append, List.append_assoc,
        List.nil_append]
      rw [string?_several, hfirst, scanString_literal_lines hchars htriple hlast rfl,
        Option.map_some]
    case isFalse hquote =>
      refine ⟨false, fun rest => ?_⟩
      simp only [List.contains_iff_mem] at hline hquote
      have hbody : scanString ⟨'\'', false, false⟩ (s ++ '\'' :: '\n' :: rest) =
          some (s, '\n' :: rest) := scanString_literal_line fun c hc =>
        ⟨hchars c hc, fun h => hline (h ▸ hc), fun h => hquote (h ▸ hc)⟩
      simp only [List.drop_succ_cons, List.drop_zero, List.append_assoc, List.cons_append,
        List.nil_append]
      cases s with
      | nil => rfl
      | cons c s =>
          have hc : c ≠ '\'' := fun h => hquote (h ▸ List.mem_cons_self)
          rw [List.cons_append, string?_line hc (by simp), ← List.cons_append, hbody,
            Option.map_some]

/-- What a character is written as does not start with the quote. -/
theorem escape_eq_cons (multiline : Bool) (c : Char) :
    ∃ d u, escape multiline c = d :: u ∧ d ≠ '"' := by
  unfold escape
  split
  case h_3 =>
    cases multiline with
    | true => exact ⟨_, _, rfl, by decide⟩
    | false => exact ⟨_, _, rfl, by decide⟩
  case h_8 hquote _ =>
    split
    · exact ⟨_, _, rfl, by decide⟩
    · exact ⟨c, [], rfl, hquote⟩
  all_goals exact ⟨_, _, rfl, by decide⟩

theorem string?_basicText (hs : s ≠ []) :
    ∃ multiline, ∀ rest, string? '"' true ((basicText s).drop 1 ++ '\n' :: rest) =
      some (.string s multiline, '\n' :: rest) := by
  unfold basicText
  split
  case isTrue =>
    refine ⟨true, fun rest => ?_⟩
    have hclosed : scanString ⟨'"', true, true⟩ ('"' :: '"' :: '"' :: '\n' :: rest) =
        some ([], '\n' :: rest) := scanString_of_closing (closing?_several rfl rfl)
    simp only [List.drop_succ_cons, List.drop_zero, List.cons_append, List.append_assoc,
      List.nil_append]
    rw [string?_several, skipFirstNewline, scanString_basic, hclosed, Option.map_some,
      Option.map_some, List.append_nil]
  case isFalse hline =>
    refine ⟨false, fun rest => ?_⟩
    have hclosed : scanString ⟨'"', false, true⟩ ('"' :: '\n' :: rest) =
        some ([], '\n' :: rest) := scanString_of_closing (closing?_line rfl)
    have hbody := scanString_basic false s ('"' :: '\n' :: rest)
    rw [hclosed, Option.map_some, List.append_nil] at hbody
    simp only [List.drop_succ_cons, List.drop_zero, List.append_assoc, List.cons_append,
      List.nil_append]
    obtain ⟨c, s, rfl⟩ := List.exists_cons_of_ne_nil hs
    obtain ⟨d, u, hd, hne⟩ := escape_eq_cons false c
    rw [List.flatMap_cons, hd, List.cons_append, List.cons_append] at hbody ⊢
    rw [string?_line hne (by simp), hbody, Option.map_some]

/-- The text of a string, with the end of a line after it, is one token with this string. -/
theorem next?_stringText (s : List Char) :
    ∃ multiline, ∀ rest, next? (stringText s ++ '\n' :: rest) =
      some (.string s multiline, '\n' :: rest) := by
  unfold stringText
  split
  case isTrue hs =>
    have hfirst : literalText s = '\'' :: (literalText s).drop 1 := by
      unfold literalText
      split
      · rfl
      · split <;> rfl
    rw [hfirst]
    exact string?_literalText hs
  case isFalse hs =>
    have hfirst : basicText s = '"' :: (basicText s).drop 1 := by
      unfold basicText
      split <;> rfl
    have hne : s ≠ [] := by
      rintro rfl
      exact hs rfl
    rw [hfirst]
    exact string?_basicText hne

/-! ### Line ends -/

theorem return_not_mem_escape (multiline : Bool) (c : Char) : '\r' ∉ escape multiline c := by
  have hdigits : ∀ n < 0x80, '\r' ∉ hexDigits n := by decide
  unfold escape
  split
  case h_3 => cases multiline <;> decide
  case h_8 =>
    split
    case isTrue hescape =>
      have hcontrol : c.toNat < 0x80 := by
        simp only [needsEscape, Bool.and_eq_true, Bool.or_eq_true, decide_eq_true_eq] at hescape
        omega
      simpa using hdigits c.toNat hcontrol
    case isFalse hescape =>
      rw [List.mem_singleton]
      rintro rfl
      exact hescape rfl
  all_goals decide

theorem return_not_mem_stringText (s : List Char) : '\r' ∉ stringText s := by
  have hbasic : ∀ multiline, '\r' ∉ s.flatMap (escape multiline) := by
    intro multiline h
    obtain ⟨c, -, hc⟩ := List.mem_flatMap.mp h
    exact return_not_mem_escape multiline c hc
  unfold stringText
  split
  case isTrue hs =>
    have hliteral : '\r' ∉ s := by
      intro h
      simp only [canBeLiteral, Bool.and_eq_true, Bool.not_eq_true', List.any_eq_false] at hs
      exact hs.1.1 '\r' h rfl
    unfold literalText
    split
    · simp [hliteral]
    · split <;> simp [hliteral]
  case isFalse =>
    unfold basicText
    split
    · simpa using hbasic true
    · simpa using hbasic false

/-- The text of a string starts with a quote. -/
theorem stringText_eq_cons (s : List Char) :
    ∃ c t, stringText s = c :: t ∧ isSpace c = false := by
  unfold stringText literalText basicText
  repeat' split
  all_goals exact ⟨_, _, rfl, rfl⟩

end HostGauge.Toml
