import HostGauge.DeviceList
import HostGauge.Proofs.Json.Values
import HostGauge.Proofs.Numeral
import HostGauge.Proofs.Text.Field
import Mathlib.Data.List.Forall2

/-!
Entries of the list of devices, as records of their members. An entry is read from the member with
its name and the one with its size, wherever they stand and whatever other members there are; which
sizes can be used is said by how they are written.
-/
namespace HostGauge

open Json (Document)
open Text (IsGap Trims)

/-- The members of an object, by the names that they stand for. -/
abbrev Record := List (String × Document)

/-- The document is an object with these members. -/
def Record.IsObject (record : Record) (d : Document) : Prop :=
  ∃ members, d = .object members ∧
    List.Forall₂ (fun m f => m.1.text? = some f.1 ∧ m.2 = f.2) members record

def Record.AtMostOnce (key : String) (record : Record) : Prop :=
  (record.map Prod.fst).count key ≤ 1

instance (key : String) (record : Record) : Decidable (record.AtMostOnce key) := Nat.decLe _ _

/-- A size that can be used: digits with a value of 64 bits, or a string of which such a numeral is
left when it is trimmed. -/
inductive IsUsable : Document → UInt64 → Prop
  | digits {digits : List Char} {n : UInt64} (h : Numeral.value digits = n.toNat) :
      IsUsable (.number ⟨false, digits, none, none⟩) n
  | text {q : Json.WrittenString} {s : String} {numeral : List Char} {n : UInt64}
      (hq : q.text? = some s) (htrim : Trims s.toList numeral) (h : Numeral.IsNumeral numeral n) :
      IsUsable (.string q) n

namespace Record

def HasName (record : Record) (name : String) : Prop :=
  ∃ q, record.lookup "name" = some (.string q) ∧ q.text? = some name

def HasSize (record : Record) (n : UInt64) : Prop :=
  ∃ d, record.lookup "log-sec" = some d ∧ IsUsable d n

/-- A size that is given has a value: it nests no deeper than the reader allows, no number in it is
out of range, and no string holds half of a pair. -/
def IsReadable (record : Record) : Prop :=
  ∀ d, record.lookup "log-sec" = some d → ∃ v, d.value? DeviceEntry.valueDepth = some v

/-- An entry of the list, which gives neither its name nor its size twice. -/
structure IsEntry (record : Record) (d : Document) : Prop where
  object : record.IsObject d
  name : record.AtMostOnce "name"
  size : record.AtMostOnce "log-sec"

variable {record : Record} {d : Document} {key : String}

/-! ### The member of a name -/

theorem lookup_eq_none (h : key ∉ record.map Prod.fst) : record.lookup key = none := by
  rw [List.lookup_eq_none_iff]
  intro f hf
  rw [bne_iff_ne]
  rintro rfl
  exact h (List.mem_map_of_mem hf)

theorem AtMostOnce.not_mem (h : AtMostOnce key ((key, d) :: record)) :
    key ∉ record.map Prod.fst := by
  rw [AtMostOnce, List.map_cons, List.count_cons_self] at h
  exact List.count_eq_zero.mp (by omega)

theorem AtMostOnce.tail {f : String × Document} (h : AtMostOnce key (f :: record)) :
    AtMostOnce key record := List.count_le_count_cons.trans h

variable {α : Type} (read : Document → Option α) (before : Option α)

/-- What is known once the members have been read: what was known before, unless one of them is the
member of the name. -/
def known? (key : String) (record : Record) : Option (Option α) :=
  match record.lookup key with
  | none => some before
  | some d => (read d).map some

theorem known?_of_not_mem (h : key ∉ record.map Prod.fst) :
    known? read before key record = some before := by
  rw [known?, lookup_eq_none h]

theorem known?_cons_self (key : String) (d : Document) (record : Record) :
    known? read before key ((key, d) :: record) = (read d).map some := by
  rw [known?, Json.lookup_cons, if_pos rfl]

theorem known?_cons_of_ne {name : String} (h : name ≠ key) (d : Document) (record : Record) :
    known? read before key ((name, d) :: record) = known? read before key record := by
  rw [known?, Json.lookup_cons, if_neg (Ne.symm h), known?]

end Record

namespace DeviceEntry.Fields

open Json (WrittenString)

variable {q : WrittenString} {d : Document} {before : Fields}

theorem add?_name (hq : q.text? = some "name") (hbefore : before.name = none) :
    before.add? (q, d) = (name? d).map fun n => { before with name := some n } := by
  unfold add?
  rw [hq, hbefore]
  rfl

theorem add?_size (hq : q.text? = some "log-sec") (hbefore : before.sectorSize = none) :
    before.add? (q, d) = (given? d).map fun v => { before with sectorSize := some v } := by
  unfold add?
  rw [hq, hbefore]
  rfl

theorem add?_other {name : String} (hq : q.text? = some name) (hname : name ≠ "name")
    (hsize : name ≠ "log-sec") : before.add? (q, d) = some before := by
  unfold add?
  rw [hq]
  split
  next heq => cases heq
  next heq => exact absurd (Option.some.inj heq) hname
  next heq => exact absurd (Option.some.inj heq) hsize
  next => rfl

/-- One member after another: the name and the size are known from the members that say them. -/
theorem foldlM_add? {members : List (WrittenString × Document)} {record : Record}
    (h : List.Forall₂ (fun m f => m.1.text? = some f.1 ∧ m.2 = f.2) members record)
    (hname : record.AtMostOnce "name") (hsize : record.AtMostOnce "log-sec")
    (hname' : "name" ∈ record.map Prod.fst → before.name = none)
    (hsize' : "log-sec" ∈ record.map Prod.fst → before.sectorSize = none) :
    members.foldlM add? before =
      (record.known? name? before.name "name").bind fun name =>
        (record.known? given? before.sectorSize "log-sec").map fun size => ⟨name, size⟩ := by
  induction h generalizing before with
  | nil => rfl
  | @cons m f members record hm _ ih =>
      obtain ⟨q, d⟩ := m
      obtain ⟨key, d'⟩ := f
      obtain ⟨hq, rfl⟩ : q.text? = some key ∧ d = d' := hm
      have hname'' := fun hmem => hname' (List.mem_cons_of_mem _ hmem)
      have hsize'' := fun hmem => hsize' (List.mem_cons_of_mem _ hmem)
      rw [List.foldlM_cons]
      by_cases hkey : key = "name"
      · subst hkey
        have hrest := hname.not_mem
        rw [add?_name hq (hname' List.mem_cons_self), Record.known?_cons_self,
          Record.known?_cons_of_ne _ _ (by decide)]
        cases name? d with
        | none => rfl
        | some name =>
            have hstep := @ih ⟨some name, before.sectorSize⟩ hname.tail hsize.tail
              (fun hmem => absurd hmem hrest) hsize''
            rw [Record.known?_of_not_mem _ _ hrest] at hstep
            exact hstep
      · rw [Record.known?_cons_of_ne _ _ hkey]
        by_cases hkey' : key = "log-sec"
        · subst hkey'
          have hrest := hsize.not_mem
          rw [add?_size hq (hsize' List.mem_cons_self), Record.known?_cons_self]
          cases given? d with
          | none => cases Record.known? name? before.name "name" record <;> rfl
          | some size =>
              have hstep := @ih ⟨before.name, some size⟩ hname.tail hsize.tail hname''
                (fun hmem => absurd hmem hrest)
              rw [Record.known?_of_not_mem _ _ hrest] at hstep
              exact hstep
        · rw [add?_other hq hkey hkey', Record.known?_cons_of_ne _ _ hkey']
          exact ih hname.tail hsize.tail hname'' hsize''

end DeviceEntry.Fields

/-! ### What an entry says -/

namespace DeviceEntry

variable {d : Document} {v : Json} {name : String} {n : UInt64}

theorem name?_eq_some_iff : name? d = some name ↔ ∃ q, d = .string q ∧ q.text? = some name := by
  cases d <;> simp [name?]

theorem usableSize?_integer {k : ℤ} :
    usableSize? ⟨name, some (.number (.integer k))⟩ = some n ↔ k = n.toNat := by
  have hn := n.toNat_lt_size
  rw [usableSize?]
  dsimp only
  constructor
  · intro h
    rw [Option.ite_none_right_eq_some, Option.some_inj] at h
    obtain ⟨hrange, rfl⟩ := h
    simp only [Bool.and_eq_true, decide_eq_true_eq] at hrange
    rw [UInt64.toNat_ofNat_of_lt' (by omega), Int.toNat_of_nonneg hrange.1]
  · rintro rfl
    have hrange : (decide (0 ≤ (n.toNat : ℤ)) && decide ((n.toNat : ℤ) < UInt64.size)) = true := by
      simp only [Bool.and_eq_true, decide_eq_true_eq]
      omega
    rw [if_pos hrange, Int.toNat_natCast, UInt64.ofNat_toNat]

/-- Of all numbers only those written with digits alone are integers that can be used. -/
theorem number?_eq_integer_iff {written : Json.WrittenNumber} :
    written.number? = some (.integer n.toNat) ↔ ∃ digits,
      written = ⟨false, digits, none, none⟩ ∧ Numeral.value digits = n.toNat := by
  have hn := n.toNat_lt_size
  constructor
  · intro h
    obtain ⟨negative, digits, fraction, exponent⟩ := written
    unfold Json.WrittenNumber.number? at h
    dsimp only at h
    split_ifs at h with hplain hword hnegative
    · simp only [Bool.and_eq_true, Option.isNone_iff_eq_none, Bool.not_eq_true'] at hplain hword
      obtain ⟨rfl, rfl⟩ := hplain
      obtain ⟨rfl, -⟩ := hword
      simp only [Option.some.injEq, JsonNumber.integer.injEq] at h
      exact ⟨digits, rfl, Int.ofNat_inj.mp h⟩
    · simp only [Bool.and_eq_true, decide_eq_true_eq] at hnegative
      simp only [Option.some.injEq, JsonNumber.integer.injEq] at h
      omega
    · obtain ⟨x, -, hx⟩ := Option.map_eq_some_iff.mp h
      cases hx
    · obtain ⟨x, -, hx⟩ := Option.map_eq_some_iff.mp h
      cases hx
  · rintro ⟨digits, rfl, hvalue⟩
    have hword : (!false && decide (n.toNat < UInt64.size)) = true := by simpa using hn
    simp only [Json.WrittenNumber.number?, Option.isNone_none, Bool.and_self, if_true, hvalue]
    rw [if_pos hword]

theorem usableSize?_number {written : Json.WrittenNumber} {m : JsonNumber}
    (h : written.number? = some m) :
    usableSize? ⟨name, some (.number m)⟩ = some n ↔ IsUsable (.number written) n := by
  have hdigits : IsUsable (.number written) n ↔ written.number? = some (.integer n.toNat) := by
    rw [number?_eq_integer_iff]
    constructor
    · rintro (⟨hvalue⟩ | _)
      exact ⟨_, rfl, hvalue⟩
    · rintro ⟨digits, rfl, hvalue⟩
      exact .digits hvalue
  rw [hdigits, h, Option.some_inj]
  cases m with
  | integer k => rw [usableSize?_integer, JsonNumber.integer.injEq]
  | real x => simp [usableSize?]

/-- A size that has a value can be used exactly if it is written so. -/
theorem usableSize?_iff (h : d.value? valueDepth = some v) :
    usableSize? ⟨name, some v⟩ = some n ↔ IsUsable d n := by
  cases d with
  | number written =>
      obtain ⟨m, hm, rfl⟩ := Option.map_eq_some_iff.mp h
      exact usableSize?_number hm
  | string q =>
      obtain ⟨s, hs, rfl⟩ := Option.map_eq_some_iff.mp h
      rw [usableSize?, Numeral.word64?_eq_some_iff]
      constructor
      · intro hnumeral
        exact .text hs (Text.trims_trim s.toList) hnumeral
      · rintro (_ | ⟨hq, htrim, hnumeral⟩)
        rw [hs] at hq
        cases hq
        rw [htrim.trim]
        exact hnumeral
  | null =>
      cases h
      exact iff_of_false (by simp [usableSize?]) (by rintro ⟨⟩)
  | bool b =>
      cases h
      exact iff_of_false (by simp [usableSize?]) (by rintro ⟨⟩)
  | array items =>
      rw [Json.Document.value?, if_neg (by decide)] at h
      obtain ⟨vs, -, rfl⟩ := Option.map_eq_some_iff.mp h
      exact iff_of_false (by simp [usableSize?]) (by rintro ⟨⟩)
  | object members =>
      rw [Json.Document.value?, if_neg (by decide)] at h
      obtain ⟨ms, -, rfl⟩ := Option.map_eq_some_iff.mp h
      exact iff_of_false (by simp [usableSize?]) (by rintro ⟨⟩)

theorem exists_given?_iff :
    (∃ size, given? d = some size) ↔ ∃ v, d.value? valueDepth = some v := by
  cases d with
  | null => exact iff_of_true ⟨none, rfl⟩ ⟨.null, rfl⟩
  | bool | number | string | array | object =>
      unfold given?
      simp only [Option.map_eq_some_iff]
      exact ⟨fun ⟨_, v, hv, _⟩ => ⟨v, hv⟩, fun ⟨v, hv⟩ => ⟨some v, v, hv, rfl⟩⟩

theorem usableSize?_of_given? {size : Option Json} (h : given? d = some size) :
    usableSize? ⟨name, size⟩ = some n ↔ IsUsable d n := by
  cases d with
  | null =>
      cases h
      exact iff_of_false (by simp [usableSize?]) (by rintro ⟨⟩)
  | bool | number | string | array | object =>
      unfold given? at h
      obtain ⟨v, hv, rfl⟩ := Option.map_eq_some_iff.mp h
      exact usableSize?_iff hv

end DeviceEntry

namespace Record

variable {record : Record} {d : Document} {name : String}

/-- The size of an entry as it was given, which need not have a value. -/
def given? (record : Record) : Option (Option Json) :=
  match record.lookup "log-sec" with
  | none => some none
  | some d => DeviceEntry.given? d

/-- The name of an entry, and its size if it has one that can be used. -/
def reading? (record : Record) : Option (String × Option UInt64) :=
  ((record.lookup "name").bind DeviceEntry.name?).bind fun name =>
    record.given?.map fun size => (name, DeviceEntry.usableSize? ⟨name, size⟩)

theorem map_ofDocument? (h : record.IsEntry d) :
    (DeviceEntry.ofDocument? d).map (fun e => (e.name, e.usableSize?)) = record.reading? := by
  obtain ⟨⟨members, rfl, hmembers⟩, hname, hsize⟩ := h
  rw [DeviceEntry.ofDocument?, DeviceEntry.Fields.foldlM_add? hmembers hname hsize (fun _ => rfl)
    (fun _ => rfl), reading?, given?, known?, known?]
  cases record.lookup "name" with
  | none =>
      cases record.lookup "log-sec" with
      | none => rfl
      | some d => cases hd : DeviceEntry.given? d <;> simp [hd]
  | some d =>
      cases hname : DeviceEntry.name? d with
      | none => simp [hname]
      | some name =>
          cases record.lookup "log-sec" with
          | none => simp [hname]
          | some d => cases hd : DeviceEntry.given? d <;> simp [hname, hd]

theorem hasName_iff :
    record.HasName name ↔ (record.lookup "name").bind DeviceEntry.name? = some name := by
  rw [HasName, Option.bind_eq_some_iff]
  simp only [DeviceEntry.name?_eq_some_iff]
  constructor
  · rintro ⟨q, hlookup, hq⟩
    exact ⟨_, hlookup, q, rfl, hq⟩
  · rintro ⟨_, hlookup, q, rfl, hq⟩
    exact ⟨q, hlookup, hq⟩

theorem isReadable_iff : record.IsReadable ↔ ∃ size, record.given? = some size := by
  unfold IsReadable given?
  cases record.lookup "log-sec" with
  | none => simp
  | some d => simp [DeviceEntry.exists_given?_iff]

theorem usableSize?_iff {size : Option Json} {n : UInt64} (h : record.given? = some size) :
    DeviceEntry.usableSize? ⟨name, size⟩ = some n ↔ record.HasSize n := by
  unfold given? at h
  unfold HasSize
  cases hlookup : record.lookup "log-sec" with
  | none =>
      rw [hlookup] at h
      cases h
      simp [DeviceEntry.usableSize?]
  | some d =>
      rw [hlookup] at h
      rw [DeviceEntry.usableSize?_of_given? h]
      simp

theorem HasName.unique {other : String} (h : record.HasName name) (h' : record.HasName other) :
    name = other := by
  rw [hasName_iff] at h h'
  exact Option.some.inj (h.symm.trans h')

theorem HasSize.isReadable {n : UInt64} (h : record.HasSize n) : record.IsReadable := by
  obtain ⟨d, hlookup, husable⟩ := h
  intro d' hd'
  rw [hlookup] at hd'
  cases hd'
  cases husable with
  | digits hvalue =>
      have hnumber := DeviceEntry.number?_eq_integer_iff.mpr ⟨_, rfl, hvalue⟩
      exact ⟨.number (.integer n.toNat), by rw [Document.value?, hnumber, Option.map_some]⟩
  | @text q s numeral n hq htrim hnumeral =>
      exact ⟨.string s, by rw [Document.value?, hq, Option.map_some]⟩

theorem reading?_eq_some_iff {size : Option UInt64} :
    record.reading? = some (name, size) ↔
      record.HasName name ∧ record.IsReadable ∧ ∀ n, size = some n ↔ record.HasSize n := by
  rw [hasName_iff, isReadable_iff, reading?, Option.bind_eq_some_iff]
  constructor
  · rintro ⟨name', hname, hsize⟩
    obtain ⟨given, hgiven, hpair⟩ := Option.map_eq_some_iff.mp hsize
    cases hpair
    exact ⟨hname, ⟨given, hgiven⟩, fun n => usableSize?_iff hgiven⟩
  · rintro ⟨hname, ⟨given, hgiven⟩, hsize⟩
    refine ⟨name, hname, ?_⟩
    have hsame : DeviceEntry.usableSize? ⟨name, given⟩ = size := by
      apply Option.ext
      intro n
      rw [usableSize?_iff hgiven, hsize]
    rw [hgiven, Option.map_some, hsame]

theorem reading?_eq_none_iff :
    record.reading? = none ↔ (∀ name, ¬ record.HasName name) ∨ ¬ record.IsReadable := by
  rw [isReadable_iff, reading?]
  simp only [hasName_iff]
  cases (record.lookup "name").bind DeviceEntry.name? <;> cases record.given? <;> simp

/-- The name and the size, where the size can be used. -/
def sized? (record : Record) : Option (String × UInt64) :=
  record.reading?.bind fun r => r.2.map fun n => (r.1, n)

theorem sized?_eq_some_iff {n : UInt64} :
    record.sized? = some (name, n) ↔ record.HasName name ∧ record.HasSize n := by
  unfold sized?
  constructor
  · intro h
    obtain ⟨⟨name', size⟩, hreading, hsize⟩ := Option.bind_eq_some_iff.mp h
    obtain ⟨m, rfl, hpair⟩ := Option.map_eq_some_iff.mp hsize
    cases hpair
    obtain ⟨hname, -, hsize⟩ := reading?_eq_some_iff.mp hreading
    exact ⟨hname, (hsize n).mp rfl⟩
  · rintro ⟨hname, hsize⟩
    cases hreading : record.reading? with
    | none =>
        rcases reading?_eq_none_iff.mp hreading with hnone | hunreadable
        · exact absurd hname (hnone name)
        · exact absurd hsize.isReadable hunreadable
    | some r =>
        obtain ⟨hname', -, hsize'⟩ := reading?_eq_some_iff.mp hreading
        rw [Option.bind_some, (hsize' n).mpr hsize, hname.unique hname']
        rfl

end Record

end HostGauge
