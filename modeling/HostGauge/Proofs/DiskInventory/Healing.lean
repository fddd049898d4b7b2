import Mathlib.Algebra.Order.Ring.Int
import Mathlib.Data.Nat.Cast.Order.Ring
import HostGauge.Host.Tree
import HostGauge.Proofs.DiskInventory.History

/-!
What the queries of one device are answered between two baselines. A device that the baseline did
not sample misses a previous sample once, at the first query that resolves, and heals by it.
-/
namespace HostGauge

/-- A call of the inventory: a baseline, or a query. -/
inductive DiskCall where
  | baseline (host : Host) (now : Moment)
  | query (q : DiskQuery)

namespace DiskInventory

/-- The answer for a device that has no sample yet. -/
def missing (device : String) : Except Fault DiskActivity :=
  .error (.unavailable (.previousSample device))

def afterCall (m : CounterModulus) (d : DiskInventory) : DiskCall → DiskInventory
  | .baseline host now => (d.baseline host now).1
  | .query q => d.afterQuery m q

def afterCalls (m : CounterModulus) (d : DiskInventory) (calls : List DiskCall) : DiskInventory :=
  calls.foldl (afterCall m) d

/-- From this inventory on, queries for the device heal and conserve its activity. -/
structure Heals (m : CounterModulus) (device : String) (base : DiskInventory) : Prop where
  /-- A sample is missing at the first query that resolves, where there was none at the start. -/
  missing_iff : ∀ earlier q, (base.afterQueries m earlier).answer m q = missing device ↔
    q.device = device ∧ (base.afterQueries m earlier).Resolves q ∧
      base.saved.find? device = none ∧
      ∀ past p rest, earlier = past ++ p :: rest → p.device = device →
        ¬ (base.afterQueries m past).Resolves p
  missing_once : ∀ earlier q between r,
    (base.afterQueries m earlier).answer m q = missing device →
      (base.afterQueries m (earlier ++ q :: between)).answer m r ≠ missing device
  /-- With a sample at the start, or once it was missing, legible statistics are enough. -/
  answers : ∀ earlier q, q.device = device →
    DiskSample.Legible q.host base.root device →
      ((∃ s, base.saved.find? device = some s) ∨ ∃ past p rest, earlier = past ++ p :: rest ∧
        (base.afterQueries m past).answer m p = missing device) →
      ∃ a, (base.afterQueries m earlier).answer m q = .ok a
  /-- The operations reported add up to what was counted since the first sample. -/
  telescopes : ∀ queries t, ∀ first ∈ (history m device base queries).head?,
    ∀ last ∈ (history m device base queries).getLast?,
      ((((activities m device base queries).map fun a => (a.operations t).toNat).sum : ℕ) : ℤ) ≡
        (last.operations t).toNat - (first.operations t).toNat [ZMOD m.value.toNat]
  /-- The bytes reported are the sectors since the last sample, times the size that is cached. -/
  bytes : ∀ earlier q a, q.device = device →
    (base.afterQueries m earlier).answer m q = .ok a →
      ∃ last s size, (history m device base earlier).getLast? = some last ∧
        (base.afterQueries m earlier).sample q = .ok s ∧
        (base.afterQueries m earlier).sectorSizes.find? device = some size ∧
        ∀ t, ((a.bytes t).toNat : ℤ) =
          min (((s.sectors t).toNat - (last.sectors t).toNat : ℤ) % m.value.toNat * size.toNat)
            (2 ^ 64 - 1)

variable {m : CounterModulus} {device : String} {d : DiskInventory}

theorem taken_one_eq_nil_iff (q : DiskQuery) :
    (if q.device = device then (d.sample q).toOption.toList else []) = [] ↔
      (q.device = device → ¬ d.Resolves q) := by
  by_cases hdevice : q.device = device
  · rw [if_pos hdevice, ← sample_isOk_iff]
    cases d.sample q <;> simp [hdevice, Except.toOption]
  · simp [hdevice]

theorem taken_eq_nil_iff (queries : List DiskQuery) :
    taken m device d queries = [] ↔
      ∀ past p rest, queries = past ++ p :: rest → p.device = device →
        ¬ (d.afterQueries m past).Resolves p := by
  induction queries generalizing d with
  | nil => simp [taken, obtained]
  | cons q rest ih =>
      rw [taken, obtained, ← taken, List.append_eq_nil_iff, taken_one_eq_nil_iff, ih]
      constructor
      · rintro ⟨hfirst, hrest⟩ past p later hsplit
        rcases List.cons_eq_append_iff.mp hsplit with ⟨rfl, h⟩ | ⟨past', rfl, h⟩
        · cases h
          exact hfirst
        · exact hrest past' p later h
      · intro h
        refine ⟨h [] q rest rfl, fun past p later hsplit => ?_⟩
        exact h (q :: past) p later (by rw [hsplit, List.cons_append])

/-- A device has no history while the start saved none and no query for it resolved. -/
theorem history_eq_nil_iff (queries : List DiskQuery) :
    history m device d queries = [] ↔ d.saved.find? device = none ∧
      ∀ past p rest, queries = past ++ p :: rest → p.device = device →
        ¬ (d.afterQueries m past).Resolves p := by
  rw [history, List.append_eq_nil_iff, taken_eq_nil_iff, Option.toList_eq_nil_iff]

/-- A sample is missing where there is no history and the query takes the first one. -/
theorem answer_eq_missing_iff (earlier : List DiskQuery) (q : DiskQuery) :
    (d.afterQueries m earlier).answer m q = missing device ↔
      q.device = device ∧ (d.afterQueries m earlier).Resolves q ∧
        history m device d earlier = [] := by
  have hlast : (d.afterQueries m earlier).saved.find? q.device =
      (history m q.device d earlier).getLast? := find?_saved_afterQueries d earlier
  rw [← sample_isOk_iff]
  cases hsample : (d.afterQueries m earlier).sample q with
  | error fault =>
      rw [(activity_of_sample_error hsample).1]
      have hne := ne_previousSample_of_sample hsample device
      simp [missing, hne]
  | ok s =>
      rw [(activity_of_sample_ok hsample).2.2, hlast]
      by_cases hdevice : q.device = device
      · rw [hdevice]
        cases hhistory : (history m device d earlier).getLast? with
        | none => simp [missing, List.getLast?_eq_none_iff.mp hhistory]
        | some last =>
            have hne : history m device d earlier ≠ [] := by
              rintro h
              rw [h] at hhistory
              cases hhistory
            simp [missing, hne]
      · cases (history m q.device d earlier).getLast? <;> simp [missing, hdevice]

/-- A query of a device with a history, made where its statistics are legible, succeeds. -/
theorem Linked.answer_of_history (h : d.Linked) {earlier : List DiskQuery} {q : DiskQuery}
    (legible : DiskSample.Legible q.host d.root q.device)
    (hhistory : history m q.device d earlier ≠ []) :
    ∃ a, (d.afterQueries m earlier).answer m q = .ok a := by
  obtain ⟨last, hlast⟩ := Option.ne_none_iff_exists'.mp (mt List.getLast?_eq_none_iff.mp hhistory)
  rw [← find?_saved_afterQueries] at hlast
  rw [← root_afterQueries (m := m) d earlier] at legible
  obtain ⟨s, hsample, -⟩ := (h.afterQueries earlier).sample_of_legible hlast legible
  refine ⟨.since s last m, ?_⟩
  rw [(activity_of_sample_ok hsample).2.2, hlast]

/-- Linked caches are enough for the queries of every device. -/
theorem Linked.heals (h : d.Linked) : Heals m device d where
  missing_iff earlier q := by
    rw [answer_eq_missing_iff, history_eq_nil_iff]
  missing_once earlier q between r hq hr := by
    obtain ⟨hdevice, resolves, -⟩ := (answer_eq_missing_iff earlier q).mp hq
    obtain ⟨-, -, hhistory⟩ := (answer_eq_missing_iff _ r).mp hr
    exact ((history_eq_nil_iff _).mp hhistory).2 earlier q between rfl hdevice resolves
  answers earlier q hdevice legible hknown := by
    subst hdevice
    refine h.answer_of_history legible fun hhistory => ?_
    obtain ⟨hnone, hsilent⟩ := (history_eq_nil_iff earlier).mp hhistory
    rcases hknown with ⟨s, hs⟩ | ⟨past, p, rest, hsplit, hp⟩
    · rw [hnone] at hs
      cases hs
    · obtain ⟨hdevice, resolves, -⟩ := (answer_eq_missing_iff past p).mp hp
      exact hsilent past p rest hsplit hdevice resolves
  telescopes queries t first hfirst last hlast := by
    rw [activities_eq_differences]
    exact DiskActivity.sum_operations_modEq m hfirst hlast t
  bytes earlier q a hdevice ha := by
    subst hdevice
    obtain ⟨last, s, hlast, hsample, rfl⟩ := exists_samples_of_answer ha
    have hcached := h.afterQueries (m := m) earlier q.device last hlast
    have hsize := (activity_of_sample_ok (m := m) hsample).1
    have hsame := Except.ok.inj ((sectorSize_of_cached hcached q.host).symm.trans hsize)
    rw [hsame] at hcached
    rw [find?_saved_afterQueries] at hlast
    refine ⟨last, s, s.sectorSize, hlast, hsample, hcached, fun t => ?_⟩
    rw [DiskActivity.bytes_since, Nat.cast_min, Int.natCast_mul, m.natCast_delta]
    rfl

theorem root_afterCalls (calls : List DiskCall) : (d.afterCalls m calls).root = d.root := by
  induction calls generalizing d with
  | nil => rfl
  | cons call rest ih =>
      refine (ih (d := d.afterCall m call)).trans ?_
      cases call with
      | baseline host now => exact d.root_baseline host now
      | query q => exact root_afterQuery

/-- Whatever calls came before it, a baseline samples the listed devices that are legible, and
from then on the queries of every device heal and conserve its activity. -/
theorem self_heals (m : CounterModulus) (d : DiskInventory) (calls : List DiskCall) (host : Host)
    (now : Moment) (device : String) :
    let base := d.afterCalls m (calls ++ [.baseline host now])
    ((∃ s, base.saved.find? device = some s) ↔
      ∃ sizes size, DeviceList.read host d.root [] = .ok sizes ∧
        sizes.find? device = some size ∧ DiskSample.Legible host d.root device) ∧
      base.root = d.root ∧ Heals m device base := by
  intro base
  have hroot : (d.afterCalls m calls).root = d.root := root_afterCalls calls
  have hbase : base = ((d.afterCalls m calls).baseline host now).1 := List.foldl_append
  refine ⟨?_, root_afterCalls _, ?_⟩
  · rw [hbase, sampled_baseline_iff, hroot]
  · rw [hbase]
    exact (linked_baseline _ host now).heals

/-- A device that appears after the baseline: one query misses a sample, the next one is answered
although the listing fails again. -/
example :
    let host (stat : String) (outcome : Outcome) : Host :=
      { (Tree.ofTexts [(["sys", "class", "block", "a", "stat"], stat)]).host with
        run := fun _ => outcome }
    let listing : Outcome := .ended (.code 0)
      "\x7b\"blockdevices\": [\x7b\"name\": \"/dev/a\", \"log-sec\": 512\x7d]\x7d".toUTF8.toList
    let gone : Outcome := .notStarted .notFound
    let base := (DiskInventory.baseline ⟨"/", {}, {}⟩ (host "" gone) 0).1
    let queries : List DiskQuery :=
      [⟨host "1 0 8 0 2 0 16" listing, 1, "/dev/a"⟩, ⟨host "5 0 10 0 2 0 15" gone, 2, "/dev/a"⟩]
    (activities .bits32 "/dev/a" base queries).map
      (fun a => (a.reads, a.bytesRead, a.bytesWritten)) = [(4, 1024, 2199023255040)] := by
  decide +kernel

end DiskInventory

end HostGauge
