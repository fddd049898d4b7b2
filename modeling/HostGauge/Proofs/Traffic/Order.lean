import HostGauge.Proofs.Traffic.Records
import Mathlib.Data.List.Nodup
import Mathlib.Data.String.Basic

/-!
The records between two tables of samples as a whole. Names order them, and since an interface has
at most one record, they do so strictly; so the order in which the tables hold their samples does
not show in the records.
-/
namespace HostGauge

namespace InterfaceSample

/-- A counter of an interface moved from one sample to another, modulo its width. -/
def Moved (m : CounterModulus) (before now : InterfaceSample) : Prop :=
  ∃ dir, ¬ (before.count dir).toNat ≡ (now.count dir).toNat [MOD m.value.toNat]

end InterfaceSample

namespace Traffic

variable {previous current : Table InterfaceSample} {m : CounterModulus} {t : Traffic}
  {before now : InterfaceSample}

/-! ### The record of one interface -/

theorem isActive_iff {t : Traffic} : t.isActive = true ↔ ∃ dir, t.amount dir ≠ 0 := by
  constructor
  · intro h
    rcases (Bool.or_eq_true _ _).mp h with hreceived | hsent
    · exact ⟨.received, of_decide_eq_true hreceived⟩
    · exact ⟨.sent, of_decide_eq_true hsent⟩
  · rintro ⟨dir, hdir⟩
    by_contra h
    exact hdir (amount_of_not_isActive (Bool.not_eq_true _ ▸ h) dir)

theorem isActive_since_iff (now before : InterfaceSample) (m : CounterModulus) :
    (since now before m).isActive = true ↔ before.Moved m now := by
  simp only [isActive_iff, amount_since, ne_eq, m.delta_eq_zero_iff, InterfaceSample.Moved]

theorem following?_none_iff : following? m none now = some t ↔ now.up = true ∧ idle now = t := by
  simp only [following?, Option.ite_none_right_eq_some, Option.some.injEq]

theorem following?_some_iff :
    following? m (some before) now = some t ↔
      (now.up = true ∨ before.Moved m now) ∧ since now before m = t := by
  simp only [following?, Option.ite_none_right_eq_some, Option.some.injEq, Bool.or_eq_true,
    isActive_since_iff]

theorem elapsed_since (now before : InterfaceSample) (m : CounterModulus) :
    ((since now before m).elapsed.nanos : ℤ) = max (now.time - before.time : ℤ) 0 := by
  simp only [since]
  omega

/-! ### All records -/

theorem pairwise_le_between (previous current : Table InterfaceSample) (m : CounterModulus) :
    (between previous current m).Pairwise (·.device ≤ ·.device) := by
  have h : (between previous current m).Pairwise fun a b => decide (a.device ≤ b.device) := by
    apply List.pairwise_mergeSort
    · intro a b c hab hbc
      rw [decide_eq_true_iff] at hab hbc ⊢
      exact hab.trans hbc
    · intro a b
      rw [Bool.or_eq_true, decide_eq_true_iff, decide_eq_true_iff]
      exact le_total a.device b.device
  exact h.imp of_decide_eq_true

/-- Records in strictly ascending order are determined by which they are. -/
theorem eq_of_perm_of_ascending {a b : List Traffic} (h : a.Perm b)
    (ha : a.Pairwise (·.device < ·.device)) (hb : b.Pairwise (·.device < ·.device)) : a = b := by
  apply h.eq_of_pairwise ?_ ha hb
  intro s t _ _ hst hts
  exact absurd hts (lt_asymm hst)

section Named

variable (named : ∀ e ∈ current.entries, e.2.device = e.1)

include named

theorem mem_between_iff :
    t ∈ between previous current m ↔ ∃ now, current.find? t.device = some now ∧
      following? m (previous.find? t.device) now = some t := by
  rw [← Option.bind_eq_some_iff, ← Option.mem_toList,
    ← filter_between previous current m named t.device, List.mem_filter]
  exact (and_iff_left (decide_eq_true rfl)).symm

/-- Each name comes up as often as its two samples make a record, that is at most once. -/
theorem nodup_devices_between (previous : Table InterfaceSample) (m : CounterModulus) :
    ((between previous current m).map Traffic.device).Nodup := by
  rw [List.nodup_iff_count_le_one]
  intro device
  have hfilter := filter_between previous current m named device
  have hcount : ((between previous current m).map Traffic.device).count device =
      ((between previous current m).filter (·.device = device)).length := by
    rw [List.count, List.countP_map, List.countP_eq_length_filter]
    rfl
  rw [hcount, hfilter]
  cases (current.find? device).bind (following? m (previous.find? device)) with
  | none => exact Nat.zero_le 1
  | some t => exact Nat.le_refl 1

theorem pairwise_between (previous : Table InterfaceSample) (m : CounterModulus) :
    (between previous current m).Pairwise (·.device < ·.device) := by
  have hdistinct := List.pairwise_map.mp (nodup_devices_between named previous m)
  apply ((pairwise_le_between previous current m).and hdistinct).imp
  intro a b h
  exact lt_of_le_of_ne h.1 h.2

theorem between_of_perm {previous' current' : Table InterfaceSample}
    (hprevious : previous'.entries.Perm previous.entries)
    (hcurrent : current'.entries.Perm current.entries) :
    between previous' current' m = between previous current m := by
  have named' : ∀ e ∈ current'.entries, e.2.device = e.1 := by
    intro e he
    exact named e (hcurrent.mem_iff.mp he)
  -- Sorting keeps the order of equal names, which would show here, but no two are equal.
  apply eq_of_perm_of_ascending ?_ (pairwise_between named' previous' m)
    (pairwise_between named previous m)
  unfold between record?
  rw [Table.find?_of_perm hprevious]
  apply (List.mergeSort_perm _ _).trans
  apply List.Perm.trans ?_ (List.mergeSort_perm _ _).symm
  exact hcurrent.filterMap _

theorem exists_mem_between_iff (previous : Table InterfaceSample) (m : CounterModulus)
    (device : String) :
    (∃ t ∈ between previous current m, t.device = device) ↔
      ∃ now, current.find? device = some now ∧
        match previous.find? device with
        | none => now.up = true
        | some before => now.up = true ∨ before.Moved m now := by
  constructor
  · rintro ⟨t, ht, rfl⟩
    obtain ⟨now, hnow, hrecord⟩ := (mem_between_iff named).mp ht
    refine ⟨now, hnow, ?_⟩
    cases hbefore : previous.find? t.device with
    | none =>
        rw [hbefore] at hrecord
        exact (following?_none_iff.mp hrecord).1
    | some before =>
        rw [hbefore] at hrecord
        exact (following?_some_iff.mp hrecord).1
  · rintro ⟨now, hnow, hcause⟩
    have hrecord : ∃ t, following? m (previous.find? device) now = some t := by
      cases hbefore : previous.find? device with
      | none =>
          rw [hbefore] at hcause
          exact ⟨_, following?_none_iff.mpr ⟨hcause, rfl⟩⟩
      | some before =>
          rw [hbefore] at hcause
          exact ⟨_, following?_some_iff.mpr ⟨hcause, rfl⟩⟩
    obtain ⟨t, ht⟩ := hrecord
    have hname : t.device = device :=
      (device_of_following? ht).trans (named _ ((current.mem_entries_iff device now).mpr hnow))
    subst hname
    exact ⟨t, (mem_between_iff named).mpr ⟨now, hnow, ht⟩, rfl⟩

end Named

/-- The records between two tables of samples, where the current ones stand under the names of their
interfaces, ascend strictly by name, whatever the orders of the tables. An interface has a record
exactly if it has a current sample and is up, or also has a sample before from which a counter
moved. Without a sample before, the record is empty; with one, it holds how far both counters
moved, modulo their width, and the time that passed, if the clock did not go back. -/
theorem recorded_by_name (previous current : Table InterfaceSample) (m : CounterModulus)
    (named : ∀ e ∈ current.entries, e.2.device = e.1) :
    (between previous current m).Pairwise (·.device < ·.device) ∧
    (∀ previous' current' : Table InterfaceSample, previous'.entries.Perm previous.entries →
      current'.entries.Perm current.entries →
      between previous' current' m = between previous current m) ∧
    (∀ device, (∃ t ∈ between previous current m, t.device = device) ↔
      ∃ now, current.find? device = some now ∧
        match previous.find? device with
        | none => now.up = true
        | some before => now.up = true ∨ before.Moved m now) ∧
    ∀ t ∈ between previous current m, ∃ now, current.find? t.device = some now ∧
      match previous.find? t.device with
      | none => t.elapsed = .zero ∧ ∀ dir, t.amount dir = 0
      | some before => (t.elapsed.nanos : ℤ) = max (now.time - before.time : ℤ) 0 ∧
        ∀ dir, ((t.amount dir).toNat : ℤ) =
          ((now.count dir).toNat - (before.count dir).toNat) % m.value.toNat := by
  refine ⟨pairwise_between named previous m, fun _ _ => between_of_perm named,
    exists_mem_between_iff named previous m, fun t ht => ?_⟩
  obtain ⟨now, hnow, hrecord⟩ := (mem_between_iff named).mp ht
  refine ⟨now, hnow, ?_⟩
  cases hbefore : previous.find? t.device with
  | none =>
      rw [hbefore] at hrecord
      obtain ⟨-, rfl⟩ := following?_none_iff.mp hrecord
      exact ⟨rfl, amount_idle now⟩
  | some before =>
      rw [hbefore] at hrecord
      obtain ⟨-, rfl⟩ := following?_some_iff.mp hrecord
      refine ⟨elapsed_since now before m, fun dir => ?_⟩
      rw [amount_since]
      exact m.natCast_delta _ _

/-- One interface is gone, one idle, one new and up, and one wrapped while it was down and the clock
went back. -/
theorem recorded_by_name_wrapped :
    let previous : Table InterfaceSample :=
      ⟨[("gone", ⟨"gone", 0, true, 1, 1⟩), ("idle", ⟨"idle", 0, false, 5, 5⟩),
        ("wrapped", ⟨"wrapped", 9, false, 4294967295, 7⟩)], by decide⟩
    let current : Table InterfaceSample :=
      ⟨[("wrapped", ⟨"wrapped", 4, false, 41, 7⟩), ("idle", ⟨"idle", 4, false, 5, 5⟩),
        ("new", ⟨"new", 4, true, 3, 3⟩)], by decide⟩
    let records : List Traffic := [⟨"new", .zero, 0, 0⟩, ⟨"wrapped", .zero, 42, 0⟩]
    (∀ e ∈ current.entries, e.2.device = e.1) ∧ between previous current .bits32 = records ∧
      records.Pairwise (·.device < ·.device) ∧
      ∀ previous' current' : Table InterfaceSample, previous'.entries.Perm previous.entries →
        current'.entries.Perm current.entries → between previous' current' .bits32 = records := by
  intro previous current records
  have named : ∀ e ∈ current.entries, e.2.device = e.1 := by decide
  have hfound : (current.entries.filterMap fun e => record? previous .bits32 e.1 e.2) =
      [⟨"wrapped", .zero, 42, 0⟩, ⟨"new", .zero, 0, 0⟩] := by decide +kernel
  obtain ⟨hascending, horder, -⟩ := recorded_by_name previous current .bits32 named
  have hrecords : between previous current .bits32 = records := by
    apply eq_of_perm_of_ascending ?_ hascending (by decide)
    apply (List.mergeSort_perm _ _).trans
    rw [hfound]
    exact .swap _ _ _
  rw [hrecords] at hascending horder
  exact ⟨named, hrecords, hascending, horder⟩

end Traffic

end HostGauge
