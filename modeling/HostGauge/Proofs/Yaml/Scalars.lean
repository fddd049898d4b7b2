import HostGauge.Proofs.Numeral
import HostGauge.Proofs.Yaml.Block
import HostGauge.Proofs.Yaml.Members
import HostGauge.Proofs.Yaml.Written

/-!
Every text is written as a value that is read as this text, whichever way of writing it is chosen.
-/
namespace HostGauge.Yaml

variable {c : Char} {s t v rest : List Char}

/-! ### The characters of a value -/

theorem isAllowed_of_isPrintable (h : isPrintable c = true) : isAllowed c = true := by
  simp only [isPrintable, isAllowed, Bool.or_eq_true, Bool.and_eq_true, decide_eq_true_eq] at h ⊢
  omega

theorem isAllowed_of_isHex (h : isHex c = true) : isAllowed c = true := by
  refine isAllowed_of_isPrintable ?_
  have hrange : ∀ {low high : ℕ}, 0x20 ≤ low → high ≤ 0x7E → low ≤ c.toNat → c.toNat ≤ high →
      isPrintable c = true := by
    intro low high hlow hhigh hc hc'
    simp only [isPrintable, Bool.or_eq_true, Bool.and_eq_true, decide_eq_true_eq]
    omega
  simp only [isHex, Char.isDigit, Bool.or_eq_true, Bool.and_eq_true, decide_eq_true_eq,
    Char.le_def, ge_iff_le, UInt32.le_iff_toNat_le] at h
  rcases h with (h | h) | h
  · exact hrange (by decide) (by decide) h.1 h.2
  · exact hrange (by decide) (by decide) h.1 h.2
  · exact hrange (by decide) (by decide) h.1 h.2

theorem all_isAllowed_hexDigits (count n : ℕ) : ∀ d ∈ hexDigits count n, isAllowed d = true := by
  intro d hd
  rcases List.mem_append.mp hd with hd | hd
  · rw [List.eq_of_mem_replicate hd]
    rfl
  · exact isAllowed_of_isHex ((toDigits_spec n).1 d hd)

theorem all_isAllowed_escape (c : Char) : ∀ d ∈ escape c, isAllowed d = true := by
  have hhex : ∀ (letter : Char) (count : ℕ), isAllowed letter = true →
      ∀ d ∈ '\\' :: letter :: hexDigits count c.toNat, isAllowed d = true := by
    intro letter count hletter d hd
    rcases List.mem_cons.mp hd with rfl | hd
    · rfl
    · rcases List.mem_cons.mp hd with rfl | hd
      · exact hletter
      · exact all_isAllowed_hexDigits count c.toNat d hd
  unfold escape
  split
  case h_1 letter hletter =>
    obtain ⟨before, after, htable, -⟩ := List.lookup_eq_some_iff.mp hletter
    have hall : ∀ p ∈ before ++ (c, letter) :: after, isAllowed p.2 = true := by
      rw [← htable]
      decide
    have hallowed := hall (c, letter) (by simp)
    simp [hallowed, (by decide : isAllowed '\\' = true)]
  case h_2 =>
    dsimp only
    split
    case isTrue => exact hhex 'x' 2 rfl
    case isFalse =>
      split
      case isTrue => exact hhex 'u' 4 rfl
      case isFalse => exact hhex 'U' 8 rfl

theorem all_isAllowed_doubleQuoted (s : List Char) : ∀ d ∈ s.flatMap (fun c =>
    if !isPrintable c || isBreak c || c = '"' || c = '\\' then escape c else [c]),
    isAllowed d = true := by
  intro d hd
  obtain ⟨c, -, hd⟩ := List.mem_flatMap.mp hd
  split at hd
  case isTrue => exact all_isAllowed_escape c d hd
  case isFalse hplain =>
    rw [List.mem_singleton.mp hd]
    simp only [Bool.or_eq_true, not_or, Bool.not_eq_true', Bool.not_eq_false] at hplain
    exact isAllowed_of_isPrintable hplain.1.1.1

theorem all_isAllowed_singleQuoted {broken : Bool} (hs : ∀ c ∈ s, isPrintable c = true) :
    ∀ d ∈ singleQuotedText broken s, isAllowed d = true := by
  induction s generalizing broken with
  | nil => cases broken <;> exact List.all_eq_true.mp rfl
  | cons c s ih =>
      have hih := fun broken => @ih broken fun d hd => hs d (List.mem_cons_of_mem _ hd)
      have hc := isAllowed_of_isPrintable (hs c List.mem_cons_self)
      rw [singleQuotedText]
      split
      case isTrue => exact List.forall_mem_cons.mpr ⟨hc, hih _⟩
      case isFalse =>
        split
        case isTrue => exact List.forall_mem_cons.mpr ⟨hc, hih _⟩
        case isFalse =>
          refine List.forall_mem_append.mpr ⟨List.forall_mem_append.mpr ⟨?_, ?_⟩, hih _⟩
          · cases broken <;> exact List.all_eq_true.mp rfl
          · split
            case isTrue => exact List.all_eq_true.mp rfl
            case isFalse => exact List.forall_mem_singleton.mpr hc

theorem all_isAllowed_literalLines {broken : Bool} (hs : ∀ c ∈ s, isPrintable c = true) :
    ∀ d ∈ literalLines broken s, isAllowed d = true := by
  induction s generalizing broken with
  | nil => cases broken <;> exact List.all_eq_true.mp rfl
  | cons c s ih =>
      have hih := fun broken => @ih broken fun d hd => hs d (List.mem_cons_of_mem _ hd)
      have hc := isAllowed_of_isPrintable (hs c List.mem_cons_self)
      rw [literalLines]
      split
      case isTrue => exact List.forall_mem_cons.mpr ⟨hc, hih _⟩
      case isFalse =>
        refine List.forall_mem_append.mpr ⟨?_, List.forall_mem_cons.mpr ⟨hc, hih _⟩⟩
        cases broken <;> exact List.all_eq_true.mp rfl

/-! ### Ways of writing a value -/

theorem isValue_plain (hline : IsLine s) (hstart : startsIndicator s = false)
    (hallowed : ∀ d ∈ s, isAllowed d = true) : Layout.IsValue (s ++ ['\n']) .plain s := by
  obtain ⟨a, s, rfl⟩ := List.exists_cons_of_ne_nil hline.nonempty
  have hsolid : Solid (a :: s) := List.append_nil (a :: s) ▸ hline.solid []
  refine ⟨⟨a, s ++ ['\n'], rfl, not_isBlank_of_solid hsolid, not_isBreak_of_solid hsolid,
    hline.first_ne.2⟩, ?_, ?_⟩
  case refine_1 =>
    intro d hd
    rcases List.mem_append.mp hd with hd | hd
    · exact hallowed d hd
    · rw [List.mem_singleton.mp hd]
      rfl
  case refine_2 =>
    intro b w rest c hv hc hcolumn hrest ts
    cases hv
    rw [List.append_assoc, List.singleton_append] at hc
    obtain ⟨next, hread, hnext, hzero⟩ :=
      plain?_line (g := {}) hline hc hcolumn hrest.solid
    refine ⟨true, next, ?_, hnext ▸ Layout.endsLine_start (hnext.symm ▸ hrest) hzero⟩
    have hafter : atBlankOrEnd (s ++ ['\n'] ++ rest) → atBlankOrEnd s := by
      rw [List.append_assoc, List.singleton_append, atBlankOrEnd_append]
      exact id
    refine (Layout.charToken?_plain rfl hstart hsolid hafter).trans ?_
    have hsave : (Layout.reading true ts c false).savePlace? =
        some (Layout.reading true ts c false) := rfl
    exact Layout.plainToken?_eq hsave hread

theorem keyToken?_eq {l : Layout} {read : Cursor → Option (Lexeme × Cursor)} {token : Lexeme}
    {next : Cursor} (hkey : l.keyAllowed = false) (hread : read l.cursor = some (token, next)) :
    l.keyToken? read = some (((l.allowKey false).add token).moveTo next) := by
  have hsave : l.savePlace? = some l := if_neg (by simp [hkey])
  rw [Layout.keyToken?, hsave]
  change (read l.cursor).bind _ = _
  rw [hread]
  rfl

theorem isValue_quoted {single : Bool} (ht : QuotedText single .part s t)
    (hallowed : ∀ d ∈ t, isAllowed d = true) :
    Layout.IsValue (quoteMark single :: (t ++ [quoteMark single, '\n']))
      (if single then .singleQuoted else .doubleQuoted) s := by
  have hmark : isAllowed (quoteMark single) = true := by cases single <;> rfl
  have hfirst : isBlank (quoteMark single) = false ∧ isBreak (quoteMark single) = false ∧
    quoteMark single ≠ '#' := by cases single <;> decide
  refine ⟨⟨_, _, rfl, hfirst⟩, ?_, ?_⟩
  case refine_1 =>
    intro d hd
    simp only [List.mem_cons, List.mem_append, List.not_mem_nil, or_false] at hd
    rcases hd with rfl | hd | rfl | rfl
    · exact hmark
    · exact hallowed d hd
    · exact hmark
    · rfl
  case refine_2 =>
    intro b w rest c hv hc hcolumn hrest ts
    cases hv
    have hstart : (c.skip 1).rest = t ++ quoteMark single :: '\n' :: rest := by
      rw [List.cons_append, List.append_assoc] at hc
      exact Cursor.rest_skip_one hc
    have hclosed : ('\n' :: rest).head? ≠ some (quoteMark single) := by
      cases single <;> simp [quoteMark]
    obtain ⟨next, hread, hnext⟩ := ht.reads hstart hclosed (Nat.succ_pos _)
    refine ⟨false, next, ?_, Layout.endsLine_break hnext hrest⟩
    have hscalar : quotedScalar? single c =
        some (.scalar (if single then .singleQuoted else .doubleQuoted) s, next) := by
      rw [quotedScalar?, hread]
      rfl
    have htoken : (Layout.reading true ts c false).charToken? (quoteMark single)
        (t ++ [quoteMark single, '\n'] ++ rest) =
          (Layout.reading true ts c false).keyToken? (quotedScalar? single) := by
      cases single <;> rfl
    rw [htoken, keyToken?_eq rfl hscalar]
    rfl

theorem blockToken?_eq {l : Layout} {literal : Bool} {token : Lexeme} {next : Cursor}
    (hplace : l.place = none)
    (hread : blockScalar? literal l.indent l.cursor = some (token, next)) :
    l.blockToken? literal = some (((l.allowKey true).add token).moveTo next) := by
  have hdrop : l.dropPlace? = some l := by
    rw [Layout.dropPlace?, if_neg (by simp [hplace]), ← hplace]
  rw [Layout.blockToken?, hdrop]
  change (blockScalar? literal l.indent l.cursor).bind _ = _
  rw [hread]
  rfl

theorem isValue_literal (hs : ∀ d ∈ s, isPrintable d = true) (hne : s ≠ []) :
    Layout.IsValue (literalIndicators s ++ '\n' :: literalLines true s) .literal s := by
  obtain ⟨i, hi, hallowed⟩ : ∃ i, literalIndicators s = '|' :: i ∧ ∀ d ∈ i, isAllowed d = true := by
    refine ⟨_, literalIndicators_eq s, List.forall_mem_append.mpr ⟨?_, ?_⟩⟩
    · split <;> exact List.all_eq_true.mp rfl
    · cases givenChomping s <;> exact List.all_eq_true.mp rfl
  rw [hi]
  refine ⟨⟨'|', i ++ '\n' :: literalLines true s, rfl, rfl, rfl, by decide⟩, ?_, ?_⟩
  case refine_1 =>
    exact List.forall_mem_append.mpr ⟨List.forall_mem_cons.mpr ⟨rfl, hallowed⟩,
      List.forall_mem_cons.mpr ⟨rfl, all_isAllowed_literalLines hs⟩⟩
  case refine_2 =>
    intro b w rest c hv hc hcolumn hrest ts
    cases hv
    have hstart : (c.skip 1).rest =
        (literalIndicators s).drop 1 ++ '\n' :: (literalLines true s ++ rest) := by
      rw [hi]
      rw [List.append_assoc, List.cons_append] at hc
      exact Cursor.rest_skip_one hc
    obtain ⟨next, hread, hnext, hzero⟩ := block?_literal hs hne hstart hrest.solid
    refine ⟨true, next, ?_, hnext ▸ Layout.endsLine_start (hnext.symm ▸ hrest) hzero⟩
    have hscalar : blockScalar? true 0 c = some (.scalar .literal s, next) := by
      rw [blockScalar?, hread]
      rfl
    exact blockToken?_eq (l := Layout.reading true ts c false) rfl hscalar

theorem isValue_doubleQuoted (s : List Char) :
    Layout.IsValue (doubleQuotedText s ++ ['\n']) .doubleQuoted s := by
  have hvalue := isValue_quoted (quotedText_double s (by simp)) (all_isAllowed_doubleQuoted s)
  rw [doubleQuotedText, List.cons_append, List.cons_append, List.append_assoc]
  exact hvalue

theorem isValue_singleQuoted (hs : IsSingleQuotable s) :
    Layout.IsValue ('\'' :: (singleQuotedText false s ++ ['\n'])) .singleQuoted s := by
  obtain ⟨t, ht, hquoted⟩ := quotedText_single hs .part (by simp) (by simp)
  have hall : ∀ d ∈ singleQuotedText false s, isAllowed d = true :=
    all_isAllowed_singleQuoted fun c hc => (hs.chars c hc).1
  have hallowed : ∀ d ∈ t, isAllowed d = true :=
    fun d hd => hall d (ht ▸ List.mem_append_left _ hd)
  have hvalue := isValue_quoted hquoted hallowed
  have htext : singleQuotedText false s = t ++ ['\''] := ht
  rw [htext, List.append_assoc]
  exact hvalue

theorem isPrintable_of_not_needsEscapes (h : needsEscapes s = false) :
    ∀ d ∈ s, isPrintable d = true := by
  intro d hd
  have hany := (Bool.or_eq_false_iff.mp h).1
  simpa using List.any_eq_false.mp hany d hd

theorem isLine_of_isPlainAllowed (h : isPlainAllowed s = true) :
    IsLine s ∧ startsIndicator s = false ∧ ∀ d ∈ s, isPrintable d = true := by
  simp only [isPlainAllowed, Bool.not_eq_true', Bool.or_eq_false_iff] at h
  obtain ⟨⟨⟨⟨⟨hempty, hescapes⟩, hstart⟩, hinside⟩, hspace⟩, hbreak⟩ := h
  obtain ⟨hfirst, hlast⟩ := Bool.or_eq_false_iff.mp hspace
  have hprint := isPrintable_of_not_needsEscapes hescapes
  refine ⟨⟨?_, ?_, hinside, ?_, ?_⟩, hstart, hprint⟩
  · rintro rfl
    cases hempty
  · intro d hd
    refine ⟨?_, fun hblank => eq_space_of_isPrintable (hprint d hd) hblank⟩
    simpa using List.any_eq_false.mp hbreak d hd
  · cases s with
    | nil => rfl
    | cons a s =>
        have hhash : a ≠ '#' := by
          rintro rfl
          cases hstart
        have ha : a ≠ ' ' := by simpa using hfirst
        simp [ha, hhash]
  · simpa using hlast

/-- What is written plainly is not taken for something else than a text. -/
theorem ScalarStyle.isPlainText_of_ofText (h : ScalarStyle.ofText s = .plain) :
    Schema.isPlainText s = true := by
  unfold ofText at h
  split at h
  case isTrue => split at h <;> cases h
  case isFalse =>
    split at h
    case isTrue hplain => exact (Bool.and_eq_true_iff.mp hplain).1
    case isFalse => split at h <;> cases h

/-- A text is read from the value it is written as, in whichever style. -/
theorem isValue_scalarText (s : List Char) :
    Layout.IsValue (scalarText s) (ScalarStyle.ofText s) s := by
  by_cases hfeed : s.contains '\n' = true
  · by_cases hliteral : isLiteralAllowed s = true
    · have hstyle : ScalarStyle.ofText s = .literal := by
        rw [ScalarStyle.ofText, if_pos hfeed, if_pos hliteral]
      have hprint : ∀ d ∈ s, isPrintable d = true := by
        refine isPrintable_of_not_needsEscapes ?_
        simp only [isLiteralAllowed, Bool.not_eq_true', Bool.or_eq_false_iff] at hliteral
        exact hliteral.1
      have hne : s ≠ [] := by
        rintro rfl
        cases hfeed
      rw [scalarText, hstyle]
      exact isValue_literal hprint hne
    · have hstyle : ScalarStyle.ofText s = .doubleQuoted := by
        rw [ScalarStyle.ofText, if_pos hfeed, if_neg hliteral]
      rw [scalarText, hstyle]
      exact isValue_doubleQuoted s
  · by_cases hplain : (Schema.isPlainText s && isPlainAllowed s) = true
    · have hstyle : ScalarStyle.ofText s = .plain := by
        rw [ScalarStyle.ofText, if_neg hfeed, if_pos hplain]
      obtain ⟨hline, hstart, hprint⟩ :=
        isLine_of_isPlainAllowed (Bool.and_eq_true_iff.mp hplain).2
      rw [scalarText, hstyle]
      exact isValue_plain hline hstart fun d hd => isAllowed_of_isPrintable (hprint d hd)
    · by_cases hquoted : isSingleQuotedAllowed s = true
      · have hstyle : ScalarStyle.ofText s = .singleQuoted := by
          rw [ScalarStyle.ofText, if_neg hfeed, if_neg hplain, if_pos hquoted]
        have hquotable : IsSingleQuotable s := by
          simp only [isSingleQuotedAllowed, Bool.not_eq_true', Bool.or_eq_false_iff] at hquoted
          refine ⟨fun d hd => ⟨isPrintable_of_not_needsEscapes hquoted.1 d hd, ?_⟩,
            (Bool.or_eq_false_iff.mp hquoted.1).2, hquoted.2⟩
          rintro rfl
          exact hfeed (List.contains_iff_mem.mpr hd)
        rw [scalarText, hstyle]
        exact isValue_singleQuoted hquotable
      · have hstyle : ScalarStyle.ofText s = .doubleQuoted := by
          rw [ScalarStyle.ofText, if_neg hfeed, if_neg hplain, if_neg hquoted]
        rw [scalarText, hstyle]
        exact isValue_doubleQuoted s

/-! ### Numbers -/

theorem endsInside_of_isDigit (hs : ∀ c ∈ s, c.isDigit = true) : endsInside s = false := by
  induction s with
  | nil => rfl
  | cons c s ih =>
      have hc := hs c List.mem_cons_self
      have hblank : isBlank c = false := by
        simp [isBlank, Numeral.ne_of_isDigit hc (d := ' ') rfl,
          Numeral.ne_of_isDigit hc (d := '\t') rfl]
      rw [endsInside, ih fun d hd => hs d (List.mem_cons_of_mem _ hd), hblank]
      simp [Numeral.ne_of_isDigit hc (d := ':') rfl]

/-- A number is a plain scalar. -/
theorem isValue_write (n : ℕ) :
    Layout.IsValue (Numeral.write n ++ ['\n']) .plain (Numeral.write n) := by
  obtain ⟨hne, hdigits⟩ := Numeral.isDigits_write n
  have hword : ∀ c ∈ Numeral.write n, isWord c = true := fun c hc => by
    simp [isWord, Char.isAlphanum, hdigits c hc]
  have hfirst : ∀ d, d.isDigit = false → (Numeral.write n).head? ≠ some d := fun d hd hhead =>
    Numeral.not_mem_of_isDigits ⟨hne, hdigits⟩ hd (List.mem_of_head? hhead)
  obtain ⟨a, s, hwrite⟩ := List.exists_cons_of_ne_nil hne
  rw [hwrite] at hdigits hword ⊢
  have ha := hdigits a List.mem_cons_self
  refine isValue_plain ⟨List.cons_ne_nil _ _, ?_, endsInside_of_isDigit hdigits, ?_, ?_⟩ ?_ ?_
  case refine_1 =>
    intro c hc
    have hsolid := solid_of_isWord (hword c hc) []
    rw [not_isBreak_of_solid hsolid, not_isBlank_of_solid hsolid]
    exact ⟨rfl, fun hblank => absurd hblank Bool.false_ne_true⟩
  case refine_2 =>
    simp [Numeral.ne_of_isDigit ha (d := ' ') rfl, Numeral.ne_of_isDigit ha (d := '#') rfl]
  case refine_3 =>
    exact fun hlast => Numeral.ne_of_isDigit (hdigits _ (List.mem_of_getLast? hlast)) rfl rfl
  case refine_4 =>
    exact Layout.startsIndicator_of_isAlphanum (by simp [Char.isAlphanum, ha]) s
  case refine_5 => exact fun c hc => WrittenMember.isAllowed_of_isWord (hword c hc)

theorem digit?_of_isDigit (h : c.isDigit = true) :
    Schema.digit? 10 c = some (c.toNat - '0'.toNat) := by
  have hlt : c.toNat - '0'.toNat < 10 := by
    have hle : c.toNat ≤ '9'.toNat := of_decide_eq_true (Bool.and_eq_true_iff.mp h).2
    change c.toNat ≤ 57 at hle
    change c.toNat - 48 < 10
    omega
  simp only [Schema.digit?, if_pos h, if_pos hlt]

theorem mapM_digit? (hs : ∀ c ∈ s, c.isDigit = true) :
    s.mapM (Schema.digit? 10) = some (s.map fun c => c.toNat - '0'.toNat) := by
  induction s with
  | nil => rfl
  | cons c s ih =>
      rw [List.mapM_cons, digit?_of_isDigit (hs c List.mem_cons_self),
        ih fun d hd => hs d (List.mem_cons_of_mem _ hd)]
      rfl

theorem foldl_digitValues (s : List Char) (start : ℕ) :
    (s.map fun c => c.toNat - '0'.toNat).foldl (fun n d => 10 * n + d) start =
      Nat.ofDigitChars 10 s start := by
  induction s generalizing start with
  | nil => rfl
  | cons c s ih => rw [List.map_cons, List.foldl_cons, ih, Nat.ofDigitChars_cons]

/-- A run of digits without a zero in front is no numeral of another radix. -/
theorem unsigned?_of_isDigits {limit : ℕ} (hs : Numeral.IsDigits s)
    (hzero : s.head? = some '0' → s = ['0']) (h : Numeral.value s < limit) :
    Schema.unsigned? limit s = some (Numeral.value s) := by
  have hplus : ∀ m, s = '+' :: m → False := by
    rintro m rfl
    exact Numeral.not_mem_of_isDigits hs (d := '+') rfl List.mem_cons_self
  have hradix : Schema.radix? s = none := by
    unfold Schema.radix?
    split
    case h_4 => rfl
    all_goals cases hzero rfl
  have hsign : Schema.dropSign s = s := by
    unfold Schema.dropSign
    split
    case h_1 a m =>
      have ha := hs.2 a List.mem_cons_self
      rw [if_neg]
      simp [Schema.isSign, Numeral.ne_of_isDigit ha (d := '+') rfl,
        Numeral.ne_of_isDigit ha (d := '-') rfl]
    case h_2 => rfl
  have hleading : Schema.hasLeadingZero s = false := by
    unfold Schema.hasLeadingZero
    rw [hsign]
    split
    case h_1 => cases hzero rfl
    case h_2 => rfl
  have hvalue : (s.map fun c => c.toNat - '0'.toNat).foldl (fun n d => 10 * n + d) 0 =
      Numeral.value s := foldl_digitValues s 0
  have hdigits : Schema.digits? 10 limit s = some (Numeral.value s) := by
    rw [Schema.digits?, if_neg (by simpa using hs.1), mapM_digit? hs.2]
    simp only [hvalue, if_pos h]
  unfold Schema.unsigned?
  split
  case h_1 m => exact (hplus m rfl).elim
  case h_2 => simp only [hradix, hleading, hdigits, Bool.false_eq_true, if_false]

/-- The digits of a number are read as this number. -/
theorem unsigned?_write {limit n : ℕ} (h : n < limit) :
    Schema.unsigned? limit (Numeral.write n) = some n := by
  have hvalue : Numeral.value (Numeral.write n) < limit := by rwa [Numeral.value_write]
  have hread := unsigned?_of_isDigits (Numeral.isDigits_write n) Numeral.eq_zero_of_head?_write
    hvalue
  rwa [Numeral.value_write] at hread

end HostGauge.Yaml
