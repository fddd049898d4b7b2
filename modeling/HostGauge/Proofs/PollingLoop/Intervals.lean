import HostGauge.Proofs.CpuTracker
import HostGauge.Proofs.PollingLoop.Identity

/-!
The processor intervals of a run. The times that a source gives, by baselines and as the readings
of gathers, reach the tracker of a loop in their order and nothing else does: neither a reading
that fails, nor what becomes of the interval once it is known. So the interval of a gather leads
from the last times that were given to its own reading.
-/
namespace HostGauge

namespace PollingLoop

open CpuTracker (Input)

variable {σ : Type} {p : PollingLoop} {f : MetricFactory}

/-! ### The times of a run -/

/-- The times that a call gets from the source. -/
def inputsOf (p : PollingLoop) (src : Source σ) (s : σ) : Call → List (Input Float)
  | .start =>
    match (src.baseline s).1 with
    | .error _ => []
    | .ok times => [.baseline times]
  | .gather | .cycle _ =>
    match p.factory, (src.sample s).1.cpuTimes.answer with
    | some _, .ok times => [.reading times]
    | _, _ => []

/-- The times that the calls of a run get from the source, the last ones at the end. -/
def inputs (p : PollingLoop) (src : Source σ) (s : σ) : List Call → List (Input Float)
  | [] => []
  | c :: rest =>
    p.inputsOf src s c ++ (p.call src s c).1.inputs src (p.call src s c).2.1 rest

/-- The interval that a call measures, if it gets a reading. -/
def intervalsOf (p : PollingLoop) (src : Source σ) (s : σ) :
    Call → List (Except Fault (CpuTimes Float))
  | .start => []
  | .gather | .cycle _ =>
    match p.factory, (src.sample s).1.cpuTimes.answer with
    | some _, .ok times => [(p.tracker.advance times).1]
    | _, _ => []

def intervals (p : PollingLoop) (src : Source σ) (s : σ) :
    List Call → List (Except Fault (CpuTimes Float))
  | [] => []
  | c :: rest =>
    p.intervalsOf src s c ++ (p.call src s c).1.intervals src (p.call src s c).2.1 rest

/-! ### What they make of the tracker -/

theorem tracker_start (p : PollingLoop) (src : Source σ) (s : σ) :
    (p.start src s).2.1.tracker = p.tracker.after (p.inputsOf src s .start) := by
  rw [start_eq, inputsOf]
  cases (src.baseline s).1 with
  | error fault => rfl
  | ok baseline => cases (src.ids (src.baseline s).2.1).1 <;> rfl

theorem tracker_gather (p : PollingLoop) (src : Source σ) (s : σ) :
    (p.gather src s).2.1.tracker = p.tracker.after (p.inputsOf src s .gather) := by
  unfold inputsOf
  cases h : p.factory with
  | none => simp only [gather, h, report, CpuTracker.after]
  | some f =>
      rw [(gather_eq h src s).2.2.1]
      cases (src.sample s).1.cpuTimes.answer <;> rfl

theorem tracker_call (p : PollingLoop) (src : Source σ) (s : σ) (c : Call) :
    (p.call src s c).1.tracker = p.tracker.after (p.inputsOf src s c) := by
  cases c with
  | start => exact tracker_start p src s
  | gather => exact tracker_gather p src s
  | cycle receive => exact tracker_gather p src s

theorem tracker_afterCalls (p : PollingLoop) (src : Source σ) (s : σ) (calls : List Call) :
    (p.afterCalls src s calls).1.tracker = p.tracker.after (p.inputs src s calls) := by
  induction calls generalizing p s with
  | nil => rfl
  | cons c rest ih =>
      rw [inputs, CpuTracker.after_append, ← tracker_call]
      exact ih _ _

theorem intervalsOf_eq (p : PollingLoop) (src : Source σ) (s : σ) (c : Call) :
    p.intervalsOf src s c = p.tracker.answers (p.inputsOf src s c) := by
  cases c with
  | start =>
      rw [inputsOf]
      cases (src.baseline s).1 <;> rfl
  | gather | cycle =>
      rw [intervalsOf, inputsOf]
      cases p.factory <;> cases (src.sample s).1.cpuTimes.answer <;> rfl

theorem intervals_eq (p : PollingLoop) (src : Source σ) (s : σ) (calls : List Call) :
    p.intervals src s calls = p.tracker.answers (p.inputs src s calls) := by
  induction calls generalizing p s with
  | nil => rfl
  | cons c rest ih =>
      rw [intervals, inputs, CpuTracker.answers_append, ← tracker_call, intervalsOf_eq, ih]

/-- A loop with a factory has times to start an interval from. -/
def Seeded (p : PollingLoop) : Prop := p.factory ≠ none → p.tracker.previous ≠ none

theorem Seeded.start (h : p.Seeded) (src : Source σ) (s : σ) :
    (p.start src s).2.1.Seeded ∧
      (p.start src s).2.1.tracker.previous =
        ((p.inputsOf src s .start).getLast?.map (·.times)).or p.tracker.previous := by
  rw [start_eq, inputsOf]
  cases (src.baseline s).1 with
  | error fault => exact ⟨h, rfl⟩
  | ok times =>
      cases (src.ids (src.baseline s).2.1).1 <;>
      exact ⟨fun _ => Option.some_ne_none times, rfl⟩

theorem Seeded.gather (h : p.Seeded) (src : Source σ) (s : σ) :
    (p.gather src s).2.1.Seeded ∧
      (p.gather src s).2.1.tracker.previous =
        ((p.inputsOf src s .gather).getLast?.map (·.times)).or p.tracker.previous := by
  have htracker := tracker_gather p src s
  cases hfactory : p.factory with
  | none =>
      simp only [inputsOf, hfactory, CpuTracker.after] at htracker ⊢
      refine ⟨fun hsome => absurd (gather_of_none hfactory src s).2.1 hsome, ?_⟩
      rw [htracker]
      rfl
  | some f =>
      -- An empty tracker would not keep the reading.
      have hprevious : p.tracker.previous ≠ none := h (hfactory ▸ Option.some_ne_none f)
      cases hanswer : (src.sample s).1.cpuTimes.answer with
      | error fault =>
          simp only [inputsOf, hfactory, hanswer, CpuTracker.after] at htracker ⊢
          rw [Seeded, htracker]
          exact ⟨fun _ => hprevious, rfl⟩
      | ok times =>
          simp only [inputsOf, hfactory, hanswer, CpuTracker.after] at htracker ⊢
          rw [Seeded, htracker, CpuTracker.previous_afterInput hprevious]
          exact ⟨fun _ => Option.some_ne_none _, rfl⟩

theorem Seeded.call (h : p.Seeded) (src : Source σ) (s : σ) (c : Call) :
    (p.call src s c).1.Seeded ∧
      (p.call src s c).1.tracker.previous =
        ((p.inputsOf src s c).getLast?.map (·.times)).or p.tracker.previous := by
  cases c with
  | start => exact h.start src s
  | gather => exact h.gather src s
  | cycle receive => exact h.gather src s

theorem Seeded.afterCalls (h : p.Seeded) (src : Source σ) (s : σ) (calls : List Call) :
    (p.afterCalls src s calls).1.Seeded ∧
      (p.afterCalls src s calls).1.tracker.previous =
        ((p.inputs src s calls).getLast?.map (·.times)).or p.tracker.previous := by
  induction calls generalizing p s with
  | nil => exact ⟨h, rfl⟩
  | cons c rest ih =>
      obtain ⟨hseeded, hprevious⟩ := h.call src s c
      obtain ⟨hafter, hlast⟩ := ih hseeded (p.call src s c).2.1
      refine ⟨hafter, hlast.trans ?_⟩
      rw [hprevious, inputs, List.getLast?_append, Option.map_or, Option.or_assoc]

/-- A call that brings no baseline to a loop without factory brings no times, and no factory. -/
theorem inputsOf_of_none (hfactory : p.factory = none) {src : Source σ} {s : σ} {c : Call}
    (hnone : ∀ times, .baseline times ∉ p.inputsOf src s c) :
    p.inputsOf src s c = [] ∧ (p.call src s c).1.factory = none := by
  cases c with
  | start =>
      simp only [inputsOf, call, start_eq] at hnone ⊢
      cases hbaseline : (src.baseline s).1 with
      | error fault => exact ⟨rfl, hfactory⟩
      | ok times =>
          rw [hbaseline] at hnone
          exact absurd List.mem_cons_self (hnone times)
  | gather | cycle =>
      simp only [inputsOf, hfactory, true_and]
      exact (gather_of_none hfactory src s).2.1

theorem inputs_of_none (hfactory : p.factory = none) {src : Source σ} {s : σ} {calls : List Call}
    (hnone : ∀ times, .baseline times ∉ p.inputs src s calls) :
    p.inputs src s calls = [] ∧ (p.afterCalls src s calls).1.factory = none := by
  induction calls generalizing p s with
  | nil => exact ⟨rfl, hfactory⟩
  | cons c rest ih =>
      have hfirst : ∀ times, .baseline times ∉ p.inputsOf src s c :=
        fun times hmem => hnone times (List.mem_append_left _ hmem)
      have hlater : ∀ times, .baseline times ∉
          (p.call src s c).1.inputs src (p.call src s c).2.1 rest :=
        fun times hmem => hnone times (List.mem_append_right _ hmem)
      obtain ⟨hnil, hstill⟩ := inputsOf_of_none hfactory hfirst
      obtain ⟨hrest, hafter⟩ := ih hstill hlater
      refine ⟨?_, hafter⟩
      rw [inputs, hnil, hrest, List.append_nil]

/-! ### The interval of a gather -/

/-- The processor tuples of a gather whose reading succeeds, by the times before the reading. -/
theorem processor_gather {previous current : CpuTimes Float} (hfactory : p.factory = some f)
    (hprevious : p.tracker.previous = some previous) {src : Source σ} {s : σ}
    (hanswer : (src.sample s).1.cpuTimes.answer = .ok current) :
    let sample := (src.sample s).1
    let cpus := sample.cpuCount.answer.toOption
    (p.gather src s).1.filter (·.subject = Family.processor.subject) =
      tuplesOf ((Utilization.percent (current.since previous) cpus).map fun percent =>
        f.processorTuples percent cpus sample.cpuTimes.time.utc) := by
  intro sample cpus
  rw [(gather_eq hfactory src s).1, filter_segments, segment, collect_processor, processorTuples,
    hanswer]
  simp only [Except.bind, CpuTracker.advance_of_previous hprevious]
  rfl

/-- The times that a run gets from its source, by the baselines of its starts and the readings of
its gathers, reach the tracker in their order, whatever else is answered and whatever becomes of an
interval. A gather that gets a reading measures the interval from the last times before it, which
makes its processor tuples, and the tracker remembers the reading; a gather that gets none leaves
the tracker as it is. Without a baseline there is no interval, and the tracker stays empty. Over
exact numbers the intervals since a baseline add up to the distance from the baseline to the last
reading. -/
theorem intervals_tile (computer : Option String) (src : Source σ) (s : σ) (calls : List Call) :
    let p : PollingLoop := { computer := computer }
    let reached := p.afterCalls src s calls
    let inputs := p.inputs src s calls
    let sample := (src.sample reached.2.1).1
    let gathered := reached.1.gather src reached.2.1
    p.intervals src s calls = CpuTracker.answers {} inputs ∧
    reached.1.tracker = CpuTracker.after {} inputs ∧
    reached.1.tracker.previous = inputs.getLast?.map (·.times) ∧
    ((∀ times, .baseline times ∉ inputs) → reached.1.factory = none ∧ reached.1.tracker = {} ∧
      ∀ readings : List (CpuTimes Float),
        reached.1.tracker.after (readings.map .reading) = {} ∧
        reached.1.tracker.answers (readings.map .reading) =
          readings.map fun _ => .error .notBaselined) ∧
    (reached.1.factory = none → gathered.2.1.tracker = reached.1.tracker) ∧
    (∀ fault, sample.cpuTimes.answer = .error fault →
      gathered.2.1.tracker = reached.1.tracker) ∧
    (∀ f current, reached.1.factory = some f → sample.cpuTimes.answer = .ok current →
      ∃ last ∈ inputs.getLast?,
        let interval := current.since last.times
        let cpus := sample.cpuCount.answer.toOption
        reached.1.tracker.advance current = (.ok interval, ⟨some current⟩) ∧
        gathered.2.1.tracker = ⟨some current⟩ ∧
        gathered.1.filter (·.subject = Family.processor.subject) =
          tuplesOf ((Utilization.percent interval cpus).map fun percent =>
            f.processorTuples percent cpus sample.cpuTimes.time.utc)) ∧
    ∀ (earlier : List (Input Float)) (start : CpuTimes Float) (readings : List (CpuTimes Float)),
      inputs = earlier ++ .baseline start :: readings.map .reading →
      ∀ (α : Type) [AddCommGroup α] (value : Float → α), ∃ intervals : List (CpuTimes α),
        CpuTracker.answers {} (inputs.map (Input.map value)) =
          CpuTracker.answers {} (earlier.map (Input.map value)) ++ intervals.map .ok ∧
        intervals.length = readings.length ∧
        (intervals.map (·.uptime)).sum =
          value (readings.getLastD start).uptime - value start.uptime ∧
        (intervals.map (·.idle)).sum =
          value (readings.getLastD start).idle - value start.idle := by
  intro p reached inputs sample gathered
  have hseeded : p.Seeded := fun h => absurd rfl h
  obtain ⟨hreached, hprevious⟩ := hseeded.afterCalls src s calls
  rw [Option.or_none] at hprevious
  have htracker : reached.1.tracker = CpuTracker.after {} inputs :=
    tracker_afterCalls p src s calls
  have hgathered := tracker_gather reached.1 src reached.2.1
  refine ⟨intervals_eq p src s calls, htracker, hprevious, ?_, ?_, ?_, ?_, ?_⟩
  · intro hnone
    obtain ⟨hnil, hfactory⟩ := inputs_of_none (p := p) rfl hnone
    have hempty : reached.1.tracker = {} := by
      rw [htracker, show inputs = [] from hnil]
      rfl
    rw [hempty]
    exact ⟨hfactory, rfl, CpuTracker.readings_of_empty⟩
  · intro hfactory
    rw [show gathered.2.1.tracker = _ from hgathered, inputsOf, hfactory]
    rfl
  · intro fault hfault
    rw [show gathered.2.1.tracker = _ from hgathered, inputsOf, hfault]
    cases reached.1.factory <;> rfl
  · intro f current hfactory hanswer
    -- A factory comes from a baseline only, so the tracker holds the last times of the run.
    have hsome : reached.1.tracker.previous ≠ none := hreached (hfactory ▸ Option.some_ne_none f)
    obtain ⟨previous, hheld⟩ := Option.ne_none_iff_exists'.mp hsome
    obtain ⟨last, hlast, rfl⟩ := Option.map_eq_some_iff.mp (hprevious.symm.trans hheld)
    refine ⟨last, hlast, CpuTracker.advance_of_previous hheld current, ?_, ?_⟩
    · rw [show gathered.2.1.tracker = _ from hgathered, inputsOf, hfactory, hanswer]
      simp only [CpuTracker.after, CpuTracker.afterInput, CpuTracker.advance_of_previous hheld]
    · exact processor_gather hfactory hheld hanswer
  · intro earlier start readings hinputs α _ value
    exact CpuTracker.sum_answers_since_baseline {} value hinputs

/-- A source whose uptime stands still at first, then cannot be read, and then has moved on. -/
def stalling : Source ℕ where
  baseline n := (.ok ⟨100.0, 50.0⟩, n, [])
  ids n := (.ok (.single "a"), n)
  startSample n := n + 1
  memory n := (.error (.file .notFound), n)
  cpuCount n := (.ok 2, n)
  cpuTimes n :=
    (if n = 1 then .ok ⟨100.0, 50.0⟩ else if n = 2 then .error (.file .notFound)
      else .ok ⟨130.0, 95.0⟩, n)
  filesystems n := (.ok [], n)
  traffic n := (.ok [], n)
  endSample n := n
  clock n := (⟨n, ⟨0, 0⟩⟩, n)

/-- After an interval without length and a reading that fails, the third gather measures half a
minute. -/
theorem intervals_tile_stalled :
    let p : PollingLoop := {}
    let reached := p.afterCalls stalling 0 [.start, .gather, .gather]
    let inputs := p.inputs stalling 0 [.start, .gather, .gather]
    inputs = [.baseline ⟨100.0, 50.0⟩, .reading ⟨100.0, 50.0⟩] ∧
      reached.1.factory = some (.ofIds (.single "a") none) ∧
      (stalling.sample reached.2.1).1.cpuTimes.answer = .ok ⟨130.0, 95.0⟩ ∧
      reached.1.tracker.advance ⟨130.0, 95.0⟩ =
        (.ok ⟨130.0 - 100.0, 95.0 - 50.0⟩, ⟨some ⟨130.0, 95.0⟩⟩) := by
  intro p reached inputs
  have hinputs : inputs = [.baseline ⟨100.0, 50.0⟩, .reading ⟨100.0, 50.0⟩] := rfl
  have hfactory : reached.1.factory = some (.ofIds (.single "a") none) := rfl
  have hanswer : (stalling.sample reached.2.1).1.cpuTimes.answer = .ok ⟨130.0, 95.0⟩ := rfl
  obtain ⟨last, hlast, hadvance, -⟩ :=
    (intervals_tile none stalling 0 [.start, .gather, .gather]).2.2.2.2.2.2.1 _ _ hfactory hanswer
  cases hlast
  exact ⟨hinputs, hfactory, hanswer, hadvance⟩

end PollingLoop

end HostGauge
