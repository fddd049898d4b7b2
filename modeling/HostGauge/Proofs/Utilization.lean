import HostGauge.Host.Tree
import HostGauge.Probe
import HostGauge.Proofs.Decimal.Special
import HostGauge.Proofs.PollingLoop.Intervals

/-!
Which intervals have a percentage. Only an interval of zero seconds is refused, and what is no
number is equal to nothing and moves through the clamp: with readings that are no numbers, or are
infinite, it reaches the tuple. Every other percentage lies between 0 and 100, however far the
readings have gone up or down.
-/
namespace HostGauge

namespace CpuTimes

variable {text : List Char} {times : CpuTimes Float}

/-- One of the two fields that are read is the word for what is no number. -/
def HasNanWord (text : List Char) : Prop :=
  ∃ word ∈ (Text.fields ((Text.lines text).headD [])).take 2, Decimal.IsNanWord word

/-- A part of both readings is one and the same infinity. -/
def StaysInfinite (current previous : CpuTimes Float) : Prop :=
  current.uptime.isInf = true ∧ (current.uptime == previous.uptime) = true ∨
    current.idle.isInf = true ∧ (current.idle == previous.idle) = true

/-- The seconds of all processors in an interval. -/
def processorSeconds (interval : CpuTimes Float) (cpus : Option ℕ) : Float :=
  interval.uptime * Float.ofNat (max (cpus.getD 1) 1)

/-- Both what was idle and what there was are infinite. -/
def IsEndless (interval : CpuTimes Float) (cpus : Option ℕ) : Prop :=
  interval.idle.isInf = true ∧ (interval.processorSeconds cpus).isInf = true

instance (text : List Char) : Decidable (HasNanWord text) :=
  inferInstanceAs (Decidable (∃ word ∈ _, Decimal.IsNanWord word))

instance (current previous : CpuTimes Float) : Decidable (current.StaysInfinite previous) :=
  inferInstanceAs (Decidable (_ ∧ _ ∨ _ ∧ _))

instance (interval : CpuTimes Float) (cpus : Option ℕ) : Decidable (interval.IsEndless cpus) :=
  inferInstanceAs (Decidable (_ ∧ _))

theorem exists_fields_of_parse (h : parse text = .ok times) :
    ∃ uptime idle rest, Text.fields ((Text.lines text).headD []) = uptime :: idle :: rest ∧
      Decimal.float? uptime = some times.uptime ∧ Decimal.float? idle = some times.idle := by
  unfold parse at h
  dsimp only at h
  split at h
  next hfields =>
    cases h
    obtain ⟨uptime, rest, hfields, huptime, hrest⟩ := List.map_eq_cons_iff.mp hfields
    obtain ⟨idle, rest, rfl, hidle, -⟩ := List.map_eq_cons_iff.mp hrest
    exact ⟨uptime, idle, rest, hfields, huptime, hidle⟩
  next => cases h
  next => cases h

theorem hasNanWord_iff (h : parse text = .ok times) :
    HasNanWord text ↔ times.uptime.isNaN = true ∨ times.idle.isNaN = true := by
  obtain ⟨uptime, idle, rest, hfields, huptime, hidle⟩ := exists_fields_of_parse h
  rw [HasNanWord, hfields, Decimal.isNaN_float? huptime, Decimal.isNaN_float? hidle]
  simp only [List.take_succ_cons, List.take_zero, List.exists_mem_cons_iff, List.not_mem_nil,
    false_and, exists_false, or_false]

/-- An interval is a number in both parts, unless a reading is not or stays infinite. -/
theorem isNaN_since (current previous : CpuTimes Float) :
    (current.since previous).uptime.isNaN = true ∨ (current.since previous).idle.isNaN = true ↔
      (current.uptime.isNaN = true ∨ current.idle.isNaN = true) ∨
      (previous.uptime.isNaN = true ∨ previous.idle.isNaN = true) ∨
      current.StaysInfinite previous := by
  unfold since StaysInfinite
  rw [Decimal.isNaN_sub, Decimal.isNaN_sub]
  tauto

end CpuTimes

namespace Utilization

open Decimal

variable {x : Float} {interval : CpuTimes Float} {cpus : Option ℕ}

theorem clamp_of_isNaN (hx : x.isNaN = true) (low high : Float) : clamp x low high = x := by
  rw [clamp, if_neg (not_lt_of_isNaN (.inl hx)), if_neg (not_lt_of_isNaN (.inr hx))]

theorem clamp_bounds (hx : x.isNaN = false) :
    0.0 ≤ clamp x 0.0 100.0 ∧ clamp x 0.0 100.0 ≤ 100.0 := by
  have hends : (0.0 : Float) ≤ 0.0 ∧ (0.0 : Float) ≤ 100.0 ∧ (100.0 : Float) ≤ 100.0 := by
    decide +kernel
  have hnumbers : (0.0 : Float).isNaN = false ∧ (100.0 : Float).isNaN = false := by
    decide +kernel
  unfold clamp
  split
  next => exact ⟨hends.1, hends.2.1⟩
  next hlow =>
    split
    next => exact ⟨hends.2.1, hends.2.2⟩
    next hhigh => exact ⟨le_of_not_lt hx hnumbers.1 hlow, le_of_not_lt hnumbers.2 hx hhigh⟩

/-- The clamp makes no number of what is none. -/
theorem isNaN_clamp (x : Float) : (clamp x 0.0 100.0).isNaN = x.isNaN := by
  cases hx : x.isNaN with
  | true => rw [clamp_of_isNaN hx, hx]
  | false => exact (finite_of_le (clamp_bounds hx).1 (clamp_bounds hx).2).1

/-- The share of the processors that was idle is no number exactly where the interval is none or is
endless; there is no division of zero by zero. -/
theorem isNaN_idleShare (h : (interval.uptime == 0.0) = false) :
    (interval.idle / interval.processorSeconds cpus).isNaN = true ↔
      (interval.uptime.isNaN = true ∨ interval.idle.isNaN = true) ∨ interval.IsEndless cpus := by
  have hcount : 0 < max (cpus.getD 1) 1 := Nat.lt_of_lt_of_le Nat.one_pos (Nat.le_max_right ..)
  obtain ⟨hnumber, hsome⟩ := ofNat_ne_zero hcount
  have hseconds : (interval.processorSeconds cpus).isNaN = true ↔ interval.uptime.isNaN = true := by
    rw [CpuTimes.processorSeconds, isNaN_mul, h, hnumber, hsome]
    simp only [Bool.false_eq_true, and_false, false_and, or_false]
  have hpositive : (interval.processorSeconds cpus == 0.0) = false := mul_ofNat_ne_zero h hcount
  rw [isNaN_div, hseconds, hpositive, CpuTimes.IsEndless]
  simp only [Bool.false_eq_true, and_false, or_false]
  tauto

/-- The complement of a share in percent is no number exactly where the share is none. -/
theorem isNaN_busyPercent (x : Float) : (100.0 * (1.0 - x)).isNaN = x.isNaN := by
  have hone : (1.0 : Float).isNaN = false ∧ (1.0 : Float).isInf = false := by decide +kernel
  have hhundred : (100.0 : Float).isNaN = false ∧ (100.0 : Float).isInf = false ∧
      ((100.0 : Float) == 0.0) = false := by
    decide +kernel
  rw [Bool.eq_iff_iff, isNaN_mul, isNaN_sub, hone.1, hone.2, hhundred.1, hhundred.2.1,
    hhundred.2.2]
  simp only [Bool.false_eq_true, false_and, false_or, or_false]

/-- A percentage is refused for an interval of zero seconds only. It is no number exactly where the
interval is none or is endless, and lies between 0 and 100 otherwise. -/
theorem percent_cases (interval : CpuTimes Float) (cpus : Option ℕ) :
    (interval.uptime == 0.0) = true ∧
        percent interval cpus = .error (.unavailable .standstill) ∨
      (interval.uptime == 0.0) = false ∧ ∃ value, percent interval cpus = .ok value ∧
        (value.isNaN = true ↔
          (interval.uptime.isNaN = true ∨ interval.idle.isNaN = true) ∨
            interval.IsEndless cpus) ∧
        (value.isNaN = false → 0.0 ≤ value ∧ value ≤ 100.0) := by
  cases hzero : interval.uptime == 0.0 with
  | true => exact .inl ⟨rfl, if_pos hzero⟩
  | false =>
      have hvalue : percent interval cpus = .ok (clamp
          (100.0 * (1.0 - interval.idle / interval.processorSeconds cpus)) 0.0 100.0) :=
        if_neg (Bool.eq_false_iff.mp hzero)
      refine .inr ⟨rfl, _, hvalue, ?_, ?_⟩
      · rw [isNaN_clamp, isNaN_busyPercent, isNaN_idleShare hzero]
      · intro hnumber
        rw [isNaN_clamp] at hnumber
        exact clamp_bounds hnumber

end Utilization

namespace PollingLoop

variable {σ : Type}

/-- The percentage of a gather, by the texts of the last two readings. There is one unless no time
has passed. It is no number exactly where a field of the texts is the word for that, where a part
of both readings is the same infinity, or where the idle seconds of the interval and the seconds of
all its processors are both infinite. Otherwise it is finite and lies between 0 and 100, for every
number of processors and also where readings go back. -/
theorem percentage_of_readings (p : PollingLoop) (src : Source σ) (s : σ) (f : MetricFactory)
    (earlier later : List Char) (previous current : CpuTimes Float) :
    p.factory = some f → CpuTimes.parse earlier = .ok previous →
    CpuTimes.parse later = .ok current → p.tracker.previous = some previous →
    (src.sample s).1.cpuTimes.answer = .ok current →
      let interval := current.since previous
      let cpus := (src.sample s).1.cpuCount.answer.toOption
      let emitted := (p.gather src s).1.filter (·.subject = "Processor")
      (emitted = [] ↔ (interval.uptime == 0.0) = true) ∧
      ∀ t ∈ emitted, t.name = "UtilizationPercentage" ∧
        (t.value.isNaN = true ↔
          CpuTimes.HasNanWord earlier ∨ CpuTimes.HasNanWord later ∨
            current.StaysInfinite previous ∨ interval.IsEndless cpus) ∧
        (t.value.isNaN = false → 0.0 ≤ t.value ∧ t.value ≤ 100.0 ∧ t.value.isInf = false) := by
  intro hfactory hearlier hlater hprevious hanswer interval cpus emitted
  have hemitted : emitted = tuplesOf ((Utilization.percent interval cpus).map fun percent =>
      f.processorTuples percent cpus (src.sample s).1.cpuTimes.time.utc) :=
    processor_gather hfactory hprevious hanswer
  have hparts : interval.uptime.isNaN = true ∨ interval.idle.isNaN = true ↔
      CpuTimes.HasNanWord earlier ∨ CpuTimes.HasNanWord later ∨
        current.StaysInfinite previous := by
    rw [CpuTimes.isNaN_since, ← CpuTimes.hasNanWord_iff hlater,
      ← CpuTimes.hasNanWord_iff hearlier, or_left_comm]
  rcases Utilization.percent_cases interval cpus with
    ⟨hzero, hpercent⟩ | ⟨hzero, value, hpercent, hnan, hbounds⟩
  · rw [hemitted, hpercent]
    exact ⟨iff_of_true rfl hzero, fun t ht => absurd ht List.not_mem_nil⟩
  · rw [hemitted, hpercent]
    refine ⟨iff_of_false (List.cons_ne_nil _ _) (Bool.eq_false_iff.mp hzero), ?_⟩
    intro t ht
    obtain rfl := List.mem_singleton.mp ht
    refine ⟨rfl, ?_, ?_⟩
    · rw [hparts, or_assoc, or_assoc] at hnan
      exact hnan
    · intro hnumber
      obtain ⟨hlow, hhigh⟩ := hbounds hnumber
      exact ⟨hlow, hhigh, (Decimal.finite_of_le hlow hhigh).2⟩

/-- Two ordinary readings of a host with two processors. -/
theorem percentage_of_readings_ordinary :
    let p : PollingLoop :=
      { factory := some (.ofIds (.single "a") none), tracker := .startFrom ⟨100.0, 50.0⟩ }
    let emitted := (p.gather stalling 2).1.filter (·.subject = "Processor")
    CpuTimes.parse "100.0 50.0".toList = .ok ⟨100.0, 50.0⟩ ∧
      CpuTimes.parse "130.0 95.0".toList = .ok ⟨130.0, 95.0⟩ ∧
      emitted ≠ [] ∧ ∀ t ∈ emitted, 0.0 ≤ t.value ∧ t.value ≤ 100.0 ∧ t.value.isInf = false := by
  intro p emitted
  have hearlier : CpuTimes.parse "100.0 50.0".toList = .ok ⟨100.0, 50.0⟩ := by decide +kernel
  have hlater : CpuTimes.parse "130.0 95.0".toList = .ok ⟨130.0, 95.0⟩ := by decide +kernel
  obtain ⟨hempty, hemitted⟩ := percentage_of_readings p stalling 2 _ "100.0 50.0".toList
    "130.0 95.0".toList ⟨100.0, 50.0⟩ ⟨130.0, 95.0⟩ rfl hearlier hlater rfl rfl
  refine ⟨hearlier, hlater, ?_, ?_⟩
  · intro h
    exact absurd (hempty.mp h) (by decide +kernel)
  · intro t ht
    obtain ⟨-, hnan, hbounds⟩ := hemitted t ht
    refine hbounds (Bool.eq_false_iff.mpr fun h => absurd (hnan.mp h) ?_)
    decide +kernel

/-- A host that was started an endless time ago has an uptime that is read, at the start and by the
next gather; their difference is no number, and neither is the percentage that is emitted. -/
theorem endless_uptime_emitted :
    let uptime := "inf 0"
    let host := (Tree.ofTexts [(["proc", "net", "dev"], ""), (["proc", "uptime"], uptime),
      (["etc", "opt", "microsoft", "omsagent", "conf", "omsadmin.conf"], "AGENT_GUID=a")]).host
    let started := ({} : PollingLoop).start Probe.source ⟨.ofRoot "/", host, ⟨0, ⟨0, 0⟩⟩⟩
    let batch := (started.2.1.gather Probe.source started.2.2.1).1
    (CpuTimes.parse uptime.toList).toOption.isSome = true ∧ started.1 = .ok () ∧
      (batch.filter (·.subject = "Processor")).map (fun t => (t.name, t.value.isNaN)) =
        [("UtilizationPercentage", true)] := by
  decide +kernel

end PollingLoop

end HostGauge
