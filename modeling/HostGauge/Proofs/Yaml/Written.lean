import HostGauge.Proofs.Yaml.Quoted
import Mathlib.Algebra.Group.Nat.Defs

/-!
The quoted scalars that are written are among the texts that the reader takes to the characters
they stand for: between single quotes where no line end touches a space, and between double
quotes always.
-/
namespace HostGauge.Yaml

variable {c d : Char} {s t : List Char}

/-! ### Characters -/

theorem eq_space_of_isPrintable (hprint : isPrintable c = true) (hblank : isBlank c = true) :
    c = ' ' := by
  rcases Bool.or_eq_true_iff.mp hblank with h | h
  · exact of_decide_eq_true h
  · rw [of_decide_eq_true h] at hprint
    cases hprint

/-- A character that is written as it is. -/
theorem writes_self {single : Bool} (hblank : isBlank c = false) (hbreak : isBreak c = false)
    (hquote : c ≠ quoteMark single) (hslash : single = false → c ≠ '\\') :
    Writes single [c] c := by
  refine ⟨c, [], rfl, hblank, hbreak, fun rest => ?_⟩
  have hgap : ¬ (isBlank c || isBreak c) = true := by simp [hblank, hbreak]
  rw [quotedPart, if_neg hgap]
  cases single with
  | true => exact if_neg hquote
  | false => exact (if_neg hquote).trans (if_neg (hslash rfl))

theorem writes_doubled : Writes true ['\'', '\''] '\'' :=
  ⟨'\'', ['\''], rfl, rfl, rfl, fun _ => rfl⟩

/-- A character after a backslash and what follows it up to the end of the escape. -/
theorem writes_escaped {letter : Char} {digits : List Char} (hbreak : isBreak letter = false)
    (h : ∀ rest, escape? (letter :: (digits ++ rest)) = some (c, digits.length + 1)) :
    Writes false ('\\' :: letter :: digits) c := by
  refine ⟨'\\', letter :: digits, rfl, rfl, rfl, fun rest => ?_⟩
  have hline : ¬ (letter :: digits ++ rest).head?.any isBreak = true := by simp [hbreak]
  rw [quotedPart, if_neg (by decide), if_neg (by decide), if_neg (by decide), if_pos rfl,
    if_neg hline, List.cons_append, h, List.length_cons]

/-! ### Hexadecimal numerals -/

theorem hexDigit_spec : ∀ n < 16, isHex (Nat.digitChar n).toUpper = true ∧
    hexValue (Nat.digitChar n).toUpper = n := by
  decide

theorem foldl_hexValue_zeros (n start : ℕ) : (List.replicate n '0').foldl
    (fun v d => 16 * v + hexValue d) start = 16 ^ n * start := by
  induction n generalizing start with
  | zero => simp
  | succ n ih =>
      rw [List.replicate_succ, List.foldl_cons, ih, Nat.pow_succ, Nat.mul_assoc]
      rfl

/-- The digits of a number in capital letters are read as this number. -/
theorem toDigits_spec (n : ℕ) : (∀ d ∈ (Nat.toDigits 16 n).map Char.toUpper, isHex d = true) ∧
    ((Nat.toDigits 16 n).map Char.toUpper).foldl (fun v d => 16 * v + hexValue d) 0 = n := by
  induction n using Nat.strongRecOn with
  | ind n ih =>
      by_cases hlt : n < 16
      · obtain ⟨hhex, hvalue⟩ := hexDigit_spec n hlt
        rw [Nat.toDigits_of_lt_base hlt]
        simp [hhex, hvalue]
      · have hle : 16 ≤ n := Nat.not_lt.mp hlt
        obtain ⟨hhex, hvalue⟩ := hexDigit_spec (n % 16) (Nat.mod_lt _ (by omega))
        obtain ⟨hhexs, hvalues⟩ := ih (n / 16) (by omega)
        rw [Nat.toDigits_of_base_le (by omega) hle, List.map_append, List.foldl_append, hvalues]
        refine ⟨fun d hd => ?_, ?_⟩
        · rcases List.mem_append.mp hd with hd | hd
          · exact hhexs d hd
          · rw [List.mem_singleton.mp hd]
            exact hhex
        · change 16 * (n / 16) + hexValue (Nat.digitChar (n % 16)).toUpper = n
          omega

theorem hexDigits_spec {count n : ℕ} (hcount : 0 < count) (h : n < 16 ^ count) :
    (hexDigits count n).length = count ∧ (hexDigits count n).all isHex = true ∧
      (hexDigits count n).foldl (fun v d => 16 * v + hexValue d) 0 = n := by
  obtain ⟨hhex, hvalue⟩ := toDigits_spec n
  have hlength := (Nat.length_toDigits_le_iff (by omega) hcount).mpr h
  refine ⟨?_, ?_, ?_⟩
  · simp [hexDigits]
    omega
  · simp only [hexDigits, List.all_append, Bool.and_eq_true, List.all_eq_true]
    refine ⟨fun d hd => ?_, hhex⟩
    rw [List.eq_of_mem_replicate hd]
    rfl
  · rw [hexDigits, List.foldl_append, foldl_hexValue_zeros, Nat.mul_zero]
    exact hvalue

theorem escape?_hexDigits {letter : Char} {count : ℕ} (hletter : codeLength? letter = some count)
    (hcount : 0 < count) (h : c.toNat < 16 ^ count) (rest : List Char) :
    escape? (letter :: (hexDigits count c.toNat ++ rest)) =
      some (c, (hexDigits count c.toNat).length + 1) := by
  obtain ⟨hlength, hhex, hvalue⟩ := hexDigits_spec hcount h
  have htake : (hexDigits count c.toNat ++ rest).take count = hexDigits count c.toNat :=
    List.take_left' hlength
  have hvalid : c.toNat.isValidChar := c.valid
  simp only [escape?, hletter, htake, hlength, hhex, hvalue, Nat.lt_irrefl, if_pos hvalid,
    Char.ofNat_toNat]
  rfl

/-- Every character can be written with an escape. -/
theorem writes_escape (c : Char) : Writes false (escape c) c := by
  unfold escape
  split
  case h_1 letter hletter =>
    obtain ⟨before, after, htable, -⟩ := List.lookup_eq_some_iff.mp hletter
    have hall : ∀ p ∈ before ++ (c, letter) :: after,
        isBreak p.2 = false ∧ codeLength? p.2 = none ∧ unescape? p.2 = some p.1 := by
      rw [← htable]
      decide
    obtain ⟨hbreak, hcode, hunescape⟩ := hall (c, letter) (by simp)
    refine writes_escaped hbreak fun rest => ?_
    simp [escape?, hcode, hunescape]
  case h_2 =>
    have hlt : c.toNat < 0x110000 := by
      rcases c.valid with h | h
      · exact Nat.lt_trans h (by decide)
      · exact h.2
    dsimp only
    split
    case isTrue h =>
      exact writes_escaped rfl (escape?_hexDigits rfl (by omega) (by omega))
    case isFalse =>
      split
      case isTrue h =>
        exact writes_escaped rfl (escape?_hexDigits rfl (by omega) (by omega))
      case isFalse =>
        exact writes_escaped rfl (escape?_hexDigits rfl (by omega) (by omega))

/-! ### Quoted scalars -/

/-- Between double quotes every text can be written. -/
theorem quotedText_double (s : List Char) {last : Last} (hlast : last ≠ .lineEnd) :
    QuotedText false last s (s.flatMap fun c =>
      if !isPrintable c || isBreak c || c = '"' || c = '\\' then escape c else [c]) := by
  induction s generalizing last with
  | nil => exact .done hlast
  | cons c s ih =>
      rw [List.flatMap_cons]
      have hrest : QuotedText false .part s _ := ih (by simp)
      split
      case isTrue => exact .part hlast (writes_escape c) hrest
      case isFalse h =>
        simp only [Bool.or_eq_true, Bool.not_eq_true', decide_eq_true_eq, not_or,
          Bool.not_eq_false, Bool.not_eq_true] at h
        obtain ⟨⟨⟨hprint, hbreak⟩, hquote⟩, hslash⟩ := h
        by_cases hblank : isBlank c = true
        · rw [eq_space_of_isPrintable hprint hblank]
          exact .space hlast (ih (by simp))
        · exact .part hlast (writes_self (Bool.eq_false_iff.mpr hblank) hbreak hquote
            fun _ => hslash) hrest

theorem adjacent_cons {p q : Char → Bool} (h : adjacent p q (c :: s) = false) :
    (p c = true → ¬ s.head?.any q = true) ∧ adjacent p q s = false := by
  cases s with
  | nil => exact ⟨fun _ => Bool.false_ne_true, rfl⟩
  | cons d s =>
      rw [adjacent, Bool.or_eq_false_iff] at h
      exact ⟨fun hp hq => by simp_all, h.2⟩

/-- A text without line feeds whose line ends touch no spaces. -/
structure IsSingleQuotable (s : List Char) : Prop where
  chars : ∀ c ∈ s, isPrintable c = true ∧ c ≠ '\n'
  spaceBefore : adjacent (· = ' ') isBreak s = false
  spaceAfter : adjacent isBreak (· = ' ') s = false

theorem IsSingleQuotable.tail (h : IsSingleQuotable (c :: s)) : IsSingleQuotable s where
  chars d hd := h.chars d (List.mem_cons_of_mem _ hd)
  spaceBefore := (adjacent_cons h.spaceBefore).2
  spaceAfter := (adjacent_cons h.spaceAfter).2

/-- A character is written as itself, and a quote twice. -/
theorem writes_single (hprint : isPrintable c = true) (hspace : c ≠ ' ')
    (hbreak : isBreak c = false) : Writes true (if c = '\'' then ['\'', '\''] else [c]) c := by
  have hblank : isBlank c = false :=
    Bool.eq_false_iff.mpr fun hb => hspace (eq_space_of_isPrintable hprint hb)
  split
  case isTrue hquote =>
    rw [hquote]
    exact writes_doubled
  case isFalse hquote => exact writes_self hblank hbreak hquote (fun h => nomatch h)

/-- Whether the next part has to be indented. -/
def Last.isLineEnd : Last → Bool
  | .lineEnd => true
  | _ => false

/-- Between single quotes a text can be written if no line end in it touches a space. -/
theorem quotedText_single (h : IsSingleQuotable s) (last : Last)
    (hspace : last = .space → ¬ s.head?.any isBreak = true)
    (hlineEnd : last = .lineEnd → s.head? ≠ some ' ') :
    ∃ t, singleQuotedText last.isLineEnd s = t ++ ['\''] ∧ QuotedText true last s t := by
  induction s generalizing last with
  | nil =>
      cases last with
      | part => exact ⟨[], rfl, .done (by simp)⟩
      | space => exact ⟨[], rfl, .done (by simp)⟩
      | lineEnd => exact ⟨indentation, rfl, .doneIndented⟩
  | cons c s ih =>
      obtain ⟨hprint, hfeed⟩ := h.chars c List.mem_cons_self
      rw [singleQuotedText]
      by_cases hc : c = ' '
      · subst hc
        have hlast : last ≠ .lineEnd := fun hl => hlineEnd hl rfl
        have hflag : last.isLineEnd = false := by
          cases last <;> first | rfl | exact absurd rfl hlast
        obtain ⟨t, ht, hquoted⟩ := ih h.tail .space
          (fun _ => (adjacent_cons h.spaceBefore).1 rfl) (fun h => nomatch h)
        have ht' : singleQuotedText false s = t ++ ['\''] := ht
        exact ⟨' ' :: t, by rw [if_pos rfl, hflag, ht']; rfl, .space hlast hquoted⟩
      · rw [if_neg hc]
        by_cases hbreak : isBreak c = true
        · rw [if_pos hbreak]
          have hkept : c = '\u2028' ∨ c = '\u2029' :=
            (isKept_of_isPrintable hprint hbreak).resolve_left hfeed
          obtain ⟨t, ht, hquoted⟩ := ih h.tail .lineEnd (fun h => nomatch h) (fun _ hs =>
            (adjacent_cons h.spaceAfter).1 hbreak (by rw [hs]; rfl))
          have ht' : singleQuotedText true s = t ++ ['\''] := ht
          refine ⟨c :: t, by rw [ht']; rfl, .lineEnd ?_ hkept hquoted⟩
          rintro rfl
          exact hspace rfl hbreak
        · rw [if_neg hbreak]
          have hw := writes_single hprint hc (Bool.eq_false_iff.mpr hbreak)
          obtain ⟨t, ht, hquoted⟩ := ih h.tail .part (fun h => nomatch h) (fun h => nomatch h)
          have ht' : singleQuotedText false s = t ++ ['\''] := ht
          cases last with
          | part => exact ⟨_, by rw [ht', ← List.append_assoc]; rfl, .part (by simp) hw hquoted⟩
          | space => exact ⟨_, by rw [ht', ← List.append_assoc]; rfl, .part (by simp) hw hquoted⟩
          | lineEnd =>
              refine ⟨_, ?_, .partIndented hw hquoted⟩
              rw [ht', ← List.append_assoc, ← List.append_assoc]
              rfl

end HostGauge.Yaml
