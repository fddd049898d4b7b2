import HostGauge.Json.Printer
import HostGauge.Json.Reader
import HostGauge.Proofs.Json.Grammar
import Mathlib.Algebra.Group.Int.Defs
import Mathlib.Data.List.Forall2
import Mathlib.Data.List.Induction

/-!
Values written and read back. A value without floats, whose integers fit into 64 bits and whose
arrays and objects nest no deeper than the reader allows, is read from its compact text as it
was; the members of an object come back in their order because the order is that of the names.
-/
namespace HostGauge.Json

/-! ### Members by their name -/

instance (members : List (String × Json)) : Decidable (Ascending members) :=
  inferInstanceAs (Decidable (members.Pairwise fun a b => a.1 < b.1))

theorem lookup_cons {α : Type*} (key name : String) (value : α) (rest : List (String × α)) :
    ((name, value) :: rest).lookup key = if key = name then some value else rest.lookup key := by
  by_cases h : key = name
  · rw [h, List.lookup_cons_self, if_pos rfl]
  · rw [List.lookup_cons, beq_eq_false_iff_ne.mpr h, if_neg h]

/-- Setting a member changes what is found under its name alone. -/
theorem lookup_insert (name : String) (value : Json) (members : List (String × Json))
    (key : String) : (insert name value members).lookup key =
      if key = name then some value else members.lookup key := by
  induction members with
  | nil => exact lookup_cons key name value []
  | cons first rest ih =>
      obtain ⟨n, v⟩ := first
      unfold insert
      split
      case isTrue => exact lookup_cons key name value _
      case isFalse =>
        split
        case isTrue heq =>
          subst heq
          simp only [lookup_cons]
          split <;> rfl
        case isFalse hne =>
          rw [lookup_cons, lookup_cons, ih]
          by_cases h : key = n
          · have hkey : key ≠ name := fun hname => hne (hname.symm.trans h)
            simp only [if_pos h, if_neg hkey]
          · simp only [if_neg h]

/-- Of members of one name the last counts. -/
theorem lookup_membersOf (pairs : List (String × Json)) (key : String) :
    (membersOf pairs).lookup key = pairs.reverse.lookup key := by
  induction pairs using List.reverseRecOn with
  | nil => rfl
  | append_singleton pairs p ih =>
      obtain ⟨name, value⟩ := p
      rw [List.reverse_append, List.reverse_singleton, List.singleton_append, lookup_cons, ← ih,
        ← lookup_insert]
      simp only [membersOf, List.foldl_append, List.foldl_cons, List.foldl_nil]

theorem insert_eq_append {name : String} {members : List (String × Json)}
    (h : ∀ m ∈ members, m.1 < name) (value : Json) :
    insert name value members = members ++ [(name, value)] := by
  induction members with
  | nil => rfl
  | cons first rest ih =>
      obtain ⟨n, v⟩ := first
      have hn : n < name := h (n, v) List.mem_cons_self
      have hne : name ≠ n := by
        rintro rfl
        exact String.lt_irrefl _ hn
      rw [insert, if_neg (String.lt_asymm hn), if_neg hne,
        ih fun m hm => h m (List.mem_cons_of_mem _ hm)]
      rfl

/-- Members whose names ascend are kept as they are given. -/
theorem membersOf_eq_self {members : List (String × Json)} (h : Ascending members) :
    membersOf members = members := by
  -- inserting a name after all smaller ones appends it
  have hfold : ∀ before, Ascending (before ++ members) →
      members.foldl (fun ms p => insert p.1 p.2 ms) before = before ++ members := by
    clear h
    induction members with
    | nil => intro before _; exact (List.append_nil _).symm
    | cons m rest ih =>
        intro before h
        have hbefore : ∀ e ∈ before, e.1 < m.1 := fun e he =>
          (List.pairwise_append.mp h).2.2 e he m List.mem_cons_self
        have hrest : Ascending ((before ++ [m]) ++ rest) := by
          rwa [List.append_assoc, List.singleton_append]
        rw [List.foldl_cons, insert_eq_append hbefore, ih _ hrest, List.append_assoc,
          List.singleton_append]
  exact hfold [] h

/-! ### Strings -/

/-- The characters that the pieces of a string stand for; one beyond the first 65536 is written
as it is or as two code units. -/
inductive WrittenString.Means : WrittenString → List Char → Prop
  | nil : Means [] []
  | plain {c : Char} {ps : WrittenString} {s : List Char} (h : Means ps s) :
      Means (.plain c :: ps) (c :: s)
  | unit {c : Char} {ps : WrittenString} {s : List Char} (hc : c.toNat < 0x10000)
      (h : Means ps s) : Means (.unit c.toNat :: ps) (c :: s)
  | pair {c : Char} {ps : WrittenString} {s : List Char} (hc : 0x10000 ≤ c.toNat)
      (h : Means ps s) :
      Means (.unit (0xD800 + (c.toNat - 0x10000) / 0x400) ::
        .unit (0xDC00 + (c.toNat - 0x10000) % 0x400) :: ps) (c :: s)

theorem toNat_lt_or_lt (c : Char) :
    c.toNat < 0xD800 ∨ 0xDFFF < c.toNat ∧ c.toNat < 0x110000 := c.valid

theorem WrittenString.chars?_of_means {p : WrittenString} {s : List Char} (h : p.Means s) :
    p.chars? = some s := by
  induction h with
  | nil => rfl
  | plain _ ih => rw [chars?, ih, Option.map_some]
  | @unit c ps s hc _ ih =>
      have hvalid := toNat_lt_or_lt c
      have hhigh : ¬ isHighSurrogate c.toNat = true := by simp [isHighSurrogate]; omega
      have hlow : ¬ isLowSurrogate c.toNat = true := by simp [isLowSurrogate]; omega
      rw [chars?.eq_def]
      dsimp only
      rw [if_neg hhigh, if_neg hlow, ih, Option.map_some, Char.ofNat_toNat]
  | @pair c ps s hc _ ih =>
      have hvalid := toNat_lt_or_lt c
      have hhigh : isHighSurrogate (0xD800 + (c.toNat - 0x10000) / 0x400) = true := by
        simp [isHighSurrogate]; omega
      have hlow : isLowSurrogate (0xDC00 + (c.toNat - 0x10000) % 0x400) = true := by
        simp [isLowSurrogate]; omega
      have hcode : 0x10000 + (0xD800 + (c.toNat - 0x10000) / 0x400 - 0xD800) * 0x400 +
          (0xDC00 + (c.toNat - 0x10000) % 0x400 - 0xDC00) = c.toNat := by omega
      rw [chars?.eq_3, if_pos hhigh, if_pos hlow, hcode, ih, Option.map_some, Char.ofNat_toNat]

theorem WrittenString.text?_of_means {p : WrittenString} {s : String} (h : p.Means s.toList) :
    p.text? = some s := by
  rw [text?, chars?_of_means h, Option.map_some, String.ofList_toList]

/-- Every character is written as a piece of a string that stands for it. -/
theorem exists_piece (c : Char) : ∃ p : Piece, p.IsText (escape c) ∧
    ∀ {ps : WrittenString} {s : List Char}, ps.Means s →
      WrittenString.Means (p :: ps) (c :: s) := by
  have hshort : ∀ {e c : Char}, (e, c) ∈ shortEscapes →
      ∃ p : Piece, p.IsText ['\\', e] ∧ ∀ {ps : WrittenString} {s : List Char}, ps.Means s →
        WrittenString.Means (p :: ps) (c :: s) := fun h => ⟨.plain _, .short h, .plain⟩
  unfold escape
  split
  case h_8 hquote hslash _ _ _ _ _ =>
    split
    case isTrue hcontrol =>
      have hdigit : ∀ {d : ℕ}, d < 16 → IsHexDigit (hexDigit d) d := fun h => ⟨h, .inl rfl⟩
      have hzero : IsHexDigit '0' 0 := ⟨by omega, .inl rfl⟩
      have htext := Piece.IsText.unit hzero hzero (hdigit (d := c.toNat / 16) (by omega))
        (hdigit (d := c.toNat % 16) (by omega))
      have hcode : ((16 * 0 + 0) * 16 + c.toNat / 16) * 16 + c.toNat % 16 = c.toNat := by omega
      rw [hcode] at htext
      exact ⟨.unit c.toNat, htext, .unit (by omega)⟩
    case isFalse hcontrol =>
      exact ⟨.plain c, .raw (Nat.not_lt.mp hcontrol) hquote hslash, .plain⟩
  all_goals exact hshort (by decide)

theorem exists_writtenString (s : List Char) :
    ∃ p : WrittenString, p.IsText (s.flatMap escape) ∧ p.Means s := by
  induction s with
  | nil => exact ⟨[], .nil, .nil⟩
  | cons c s ih =>
      obtain ⟨p, htext, hmeans⟩ := exists_piece c
      obtain ⟨ps, hstext, hsmeans⟩ := ih
      exact ⟨p :: ps, .cons htext hstext, hmeans hsmeans⟩

theorem exists_quoted (s : String) :
    ∃ p : WrittenString, DocumentText (.string p) (quoted s) ∧ p.text? = some s := by
  obtain ⟨p, htext, hmeans⟩ := exists_writtenString s.toList
  exact ⟨p, .string htext, WrittenString.text?_of_means hmeans⟩

/-! ### Integers -/

theorem isWhole_write (n : ℕ) : IsWhole (Numeral.write n) :=
  ⟨Numeral.isDigits_write n, Numeral.eq_zero_of_head?_write⟩

/-- The written form of an integer. -/
def writtenInteger (n : ℤ) : WrittenNumber := ⟨n < 0, Numeral.write n.natAbs, none, none⟩

theorem isText_integerText (n : ℤ) : (writtenInteger n).IsText (integerText n) := by
  have htext : integerText n = (if decide (n < 0) then ['-'] else []) ++
      (Numeral.write n.natAbs ++ ([] ++ [])) := by
    by_cases h : n < 0 <;> simp [integerText, h]
  rw [htext]
  exact .mk (isWhole_write _) .none .none

theorem number?_writtenInteger {n : ℤ} (hlow : -2 ^ 63 ≤ n) (hhigh : n < 2 ^ 64) :
    (writtenInteger n).number? = some (.integer n) := by
  have hsize : UInt64.size = 2 ^ 64 := rfl
  have hpow : Nat.pow 2 63 = 2 ^ 63 := rfl
  simp only [WrittenNumber.number?, writtenInteger, Numeral.value_write, Option.isNone_none,
    Bool.and_self, if_true]
  by_cases h : n < 0
  · have hvalue : (decide (n < 0) && decide (n.natAbs ≠ 0) &&
        decide (n.natAbs ≤ Nat.pow 2 63)) = true := by
      simp only [Bool.and_eq_true, decide_eq_true_eq]
      omega
    have hn : -(n.natAbs : ℤ) = n := by omega
    rw [if_neg (by simp [h]), if_pos hvalue, hn]
  · have hvalue : (!decide (n < 0) && decide (n.natAbs < UInt64.size)) = true := by
      simp only [Bool.and_eq_true, Bool.not_eq_true', decide_eq_false_iff_not, decide_eq_true_eq]
      omega
    have hn : (n.natAbs : ℤ) = n := by omega
    rw [if_pos hvalue, hn]

/-! ### Values -/

/-- The compact text of the first value is read as the second, where arrays and objects nest at
most so deep. -/
def ReadsAs (depth : ℕ) (v w : Json) : Prop :=
  ∃ d : Document, DocumentText d v.compact ∧ d.value? depth = some w

variable {depth : ℕ}

theorem readsAs_string (s : String) : ReadsAs depth (.string s) (.string s) := by
  obtain ⟨p, htext, hp⟩ := exists_quoted s
  exact ⟨.string p, htext, by rw [Document.value?, hp, Option.map_some]⟩

theorem readsAs_integer {n : ℤ} (hlow : -2 ^ 63 ≤ n) (hhigh : n < 2 ^ 64) :
    ReadsAs depth (.number (.integer n)) (.number (.integer n)) :=
  ⟨.number (writtenInteger n), .number (isText_integerText n), by
    rw [Document.value?, number?_writtenInteger hlow hhigh, Option.map_some]⟩

theorem PaddedText.bare {d : Document} {s : List Char} (h : DocumentText d s) :
    PaddedText d s := by
  have hnil : Blanks [] := fun _ hc => nomatch hc
  have hs := PaddedText.mk hnil h hnil
  rwa [List.nil_append, List.append_nil] at hs

theorem exists_items {v w : Json} {vs ws : List Json} (hv : ReadsAs depth v w)
    (h : List.Forall₂ (ReadsAs depth) vs ws) :
    ∃ ds, ItemsText ds (commaSeparated (compactItems (v :: vs))) ∧
      Document.items? depth ds = some (w :: ws) := by
  induction h generalizing v w with
  | nil =>
      obtain ⟨d, htext, hd⟩ := hv
      exact ⟨[d], .last (.bare htext), by simp [Document.items?, hd]⟩
  | cons hnext _ ih =>
      obtain ⟨d, htext, hd⟩ := hv
      obtain ⟨ds, hstext, hds⟩ := ih hnext
      exact ⟨d :: ds, .more (.bare htext) hstext, by rw [Document.items?, hd, hds]⟩

theorem readsAs_array {vs ws : List Json} (h : List.Forall₂ (ReadsAs depth) vs ws) :
    ReadsAs (depth + 1) (.array vs) (.array ws) := by
  cases h with
  | nil => exact ⟨.array [], .emptyArray (s := []) (fun _ hc => nomatch hc), rfl⟩
  | cons hv hrest =>
      obtain ⟨ds, htext, hds⟩ := exists_items hv hrest
      exact ⟨.array ds, .array htext, by
        rw [Document.value?, if_neg (Nat.succ_ne_zero depth), Nat.add_sub_cancel, hds,
          Option.map_some]⟩

/-- The same for a member of an object. -/
def MemberReadsAs (depth : ℕ) (m n : String × Json) : Prop :=
  m.1 = n.1 ∧ ReadsAs depth m.2 n.2

/-- The text of a member without blanks. -/
theorem exists_memberText (name : String) {d : Document} {t : List Char} (h : DocumentText d t) :
    ∃ p : WrittenString, MemberText (p, d) (quoted name ++ ':' :: t) ∧ p.Means name.toList := by
  obtain ⟨p, hname, hp⟩ := exists_writtenString name.toList
  have hnil : Blanks [] := fun _ hc => nomatch hc
  have hm := MemberText.mk hnil hname hnil (.bare h)
  refine ⟨p, ?_, hp⟩
  rw [quoted, List.cons_append, List.append_assoc]
  exact hm

theorem exists_member {m n : String × Json} (h : MemberReadsAs depth m n) :
    ∃ d, MemberText d (compactMember m) ∧ Document.member? depth d = some n := by
  obtain ⟨name, v⟩ := m
  obtain ⟨name', w⟩ := n
  obtain ⟨rfl, d, htext, hd⟩ : name = name' ∧ ReadsAs depth v w := h
  obtain ⟨p, hm, hp⟩ := exists_memberText name htext
  exact ⟨(p, d), hm, by rw [Document.member?, WrittenString.text?_of_means hp, hd]⟩

theorem exists_members {m n : String × Json} {ms ns : List (String × Json)}
    (hm : MemberReadsAs depth m n) (h : List.Forall₂ (MemberReadsAs depth) ms ns) :
    ∃ ds, MembersText ds (commaSeparated (compactMembers (m :: ms))) ∧
      Document.members? depth ds = some (n :: ns) := by
  induction h generalizing m n with
  | nil =>
      obtain ⟨d, htext, hd⟩ := exists_member hm
      exact ⟨[d], .last htext, by simp [Document.members?, hd]⟩
  | cons hnext _ ih =>
      obtain ⟨d, htext, hd⟩ := exists_member hm
      obtain ⟨ds, hstext, hds⟩ := ih hnext
      exact ⟨d :: ds, .more htext hstext, by rw [Document.members?, hd, hds]⟩

theorem readsAs_object {ms ns : List (String × Json)}
    (h : List.Forall₂ (MemberReadsAs depth) ms ns) :
    ReadsAs (depth + 1) (.object ms) (.object (membersOf ns)) := by
  cases h with
  | nil => exact ⟨.object [], .emptyObject (s := []) (fun _ hc => nomatch hc), rfl⟩
  | cons hm hrest =>
      obtain ⟨ds, htext, hds⟩ := exists_members hm hrest
      exact ⟨.object ds, .object htext, by
        rw [Document.value?, if_neg (Nat.succ_ne_zero depth), Nat.add_sub_cancel, hds,
          Option.map_some]⟩

theorem parse?_of_readsAs {v w : Json} (h : ReadsAs maxDepth v w) :
    parse? v.compact = some w := by
  obtain ⟨d, htext, hd⟩ := h
  rw [parse?, Document.parse?_of_paddedText (.bare htext), Option.bind_some, hd]

/-! ### Values without floats -/

/-- Values without floats whose integers fit into 64 bits, signed or unsigned, and whose arrays
and objects nest at most so deep; the members of an object stand in the order of their names. -/
inductive Plain : ℕ → Json → Prop
  | null {depth : ℕ} : Plain depth .null
  | bool {depth : ℕ} (b : Bool) : Plain depth (.bool b)
  | integer {depth : ℕ} {n : ℤ} (hlow : -2 ^ 63 ≤ n) (hhigh : n < 2 ^ 64) :
      Plain depth (.number (.integer n))
  | string {depth : ℕ} (s : String) : Plain depth (.string s)
  | array {depth : ℕ} {items : List Json} (h : ∀ v ∈ items, Plain depth v) :
      Plain (depth + 1) (.array items)
  | object {depth : ℕ} {members : List (String × Json)} (hascending : Ascending members)
      (h : ∀ m ∈ members, Plain depth m.2) : Plain (depth + 1) (.object members)

theorem Plain.readsAs {v : Json} (h : Plain depth v) : ReadsAs depth v v := by
  induction h with
  | null => exact ⟨.null, .null, rfl⟩
  | bool b =>
      cases b with
      | true => exact ⟨.bool true, .true, rfl⟩
      | false => exact ⟨.bool false, .false, rfl⟩
  | integer hlow hhigh => exact readsAs_integer hlow hhigh
  | string s => exact readsAs_string s
  | array _ ih => exact readsAs_array (List.forall₂_same.mpr ih)
  | object hascending _ ih =>
      have hobject := readsAs_object (List.forall₂_same.mpr fun m hm => ⟨rfl, ih m hm⟩)
      rwa [membersOf_eq_self hascending] at hobject

/-- Compact text is read back as the value it is the text of. -/
theorem Plain.parse?_compact {v : Json} (h : Plain maxDepth v) : parse? v.compact = some v :=
  parse?_of_readsAs h.readsAs

theorem Plain.insert {members : List (String × Json)} (h : Plain (depth + 1) (.object members))
    (name : String) {value : Json} (hvalue : Plain depth value) :
    Plain (depth + 1) (.object (Json.insert name value members)) := by
  cases h with
  | object hascending hmembers =>
      refine .object (hascending.insert name value) fun m hm => ?_
      rcases eq_or_mem_of_mem_insert hm with rfl | hm
      · exact hvalue
      · exact hmembers m hm

end HostGauge.Json
