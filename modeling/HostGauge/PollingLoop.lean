import HostGauge.Family

/-!
The polling loop: every cycle gathers one batch of tuples and hands it to a callback. The
families are gathered in a fixed order and do not affect each other. A family whose figures are
unavailable is left out silently; any other fault is logged, unless the general throttle slot
suppresses it. Faults of the number of processors have a slot of their own.
-/
namespace HostGauge

abbrev Batch := List MetricTuple

structure PollingLoop where
  /-- Stamped on every tuple. -/
  computer : Option String := none
  /-- There from the first successful start on. -/
  factory : Option MetricFactory := none
  tracker : CpuTracker Float := {}
  throttle : Throttle := .standard
  cpuThrottle : Throttle := .standard

namespace PollingLoop

variable {σ κ : Type}

/-! ### Starting -/

/-- Takes a baseline of the source and resolves the identifiers for all tuples. The loop must not
run where that fails. -/
def start (p : PollingLoop) (src : Source σ) (s : σ) :
    Except Fault Unit × PollingLoop × σ × Log :=
  match src.baseline s with
  | (.error fault, s, log) => (.error fault, p, s, log)
  | (.ok baseline, s, log) =>
    let p := { p with tracker := .startFrom baseline }
    match src.ids s with
    | (.error fault, s) => (.error fault, p, s, log)
    | (.ok ids, s) => (.ok (), { p with factory := some (.ofIds ids p.computer) }, s, log)

/-! ### Reporting -/

def familyFailed (family : Family) (fault : Fault) : LogEvent :=
  .error ("Unexpected error collecting " ++ family.name ++ " metrics: " ++ fault.message)

def cpuCountFailed (fault : Fault) : LogEvent :=
  .error ("Unable to get number of CPUs: " ++ fault.message)

/-- Logs an event about a fault, unless the general slot suppresses it. -/
def report (p : PollingLoop) (fault : Fault) (now : Moment) (event : LogEvent) :
    PollingLoop × Log :=
  let (reported, throttle) := p.throttle.shouldReport fault.key now
  ({ p with throttle := throttle }, if reported then [event] else [])

/-- The number of processors, if it is known; a fault goes through the slot of its own. -/
def cpuCount (p : PollingLoop) (count : Timed Nat) : Option Nat × PollingLoop × Log :=
  match count.answer with
  | .ok n => (some n, p, [])
  | .error fault =>
    let (reported, throttle) := p.cpuThrottle.shouldReport fault.key count.time.moment
    (none, { p with cpuThrottle := throttle }, if reported then [cpuCountFailed fault] else [])

/-! ### Gathering -/

/-- The tuples of one processor interval; the reading is remembered as the start of the next. -/
def processor (p : PollingLoop) (f : MetricFactory) (cpus : Option Nat)
    (reading : Timed (CpuTimes Float)) : Except Fault Batch × PollingLoop :=
  match reading.answer with
  | .error fault => (.error fault, p)
  | .ok current =>
    match p.tracker.advance current with
    | (.error fault, _) => (.error fault, p)
    | (.ok interval, tracker) =>
      ((Utilization.percent interval cpus).map fun percent =>
        f.processorTuples percent cpus reading.time.utc, { p with tracker := tracker })

/-- The tuples of a family. -/
def collect (p : PollingLoop) (f : MetricFactory) (sample : Sample) :
    Family → Except Fault Batch × PollingLoop × Log
  | .liveness => (.ok (f.heartbeat sample.start.utc), p, [])
  | .memory =>
    (sample.memory.answer.map fun m => f.memoryTuples m sample.memory.time.utc, p, [])
  | .processor =>
    let (cpus, p, log) := p.cpuCount sample.cpuCount
    let (tuples, p) := p.processor f cpus sample.cpuTimes
    (tuples, p, log)
  | .logicalDisks =>
    (sample.filesystems.answer.map fun fs =>
      fs.flatMap (f.filesystemTuples sample.filesystems.time.utc), p, [])
  | .network =>
    (sample.traffic.answer.map fun ts =>
      ts.flatMap (f.trafficTuples sample.traffic.time.utc), p, [])

/-- When the figures of a family were all there. -/
def familyTime (sample : Sample) : Family → ClockReading
  | .liveness => sample.start
  | .memory => sample.memory.time
  | .processor => sample.cpuTimes.time
  | .logicalDisks => sample.filesystems.time
  | .network => sample.traffic.time

/-- The segment of a family in the batch: empty where the family failed. -/
def gatherFamily (p : PollingLoop) (f : MetricFactory) (sample : Sample) (family : Family) :
    Batch × PollingLoop × Log :=
  match p.collect f sample family with
  | (.ok tuples, p, log) => (tuples, p, log)
  | (.error fault, p, log) =>
    if fault.isUnavailable then ([], p, log)
    else
      let (p, reported) :=
        p.report fault (familyTime sample family).moment (familyFailed family fault)
      ([], p, log ++ reported)

/-- The segments of some families, one after the other. -/
def gatherFamilies (p : PollingLoop) (f : MetricFactory) (sample : Sample) :
    List Family → Batch × PollingLoop × Log
  | [] => ([], p, [])
  | family :: rest =>
    let (tuples, p, log) := p.gatherFamily f sample family
    let (more, p, moreLog) := gatherFamilies p f sample rest
    (tuples ++ more, p, log ++ moreLog)

/-- One batch. A loop that was never started reports that, at a moment of its own, and asks
nothing. -/
def gather (p : PollingLoop) (src : Source σ) (s : σ) : Batch × PollingLoop × σ × Log :=
  match p.factory with
  | none =>
    let fault := Fault.notBaselined
    let (time, s) := src.clock s
    let (p, log) := p.report fault time.moment (.error fault.message)
    ([], p, s, log)
  | some f =>
    let (sample, s) := src.sample s
    let (batch, p, log) := p.gatherFamilies f sample Family.all
    (batch, p, s, log)

/-! ### Delivering -/

/-- What a callback panics with. -/
inductive Payload where
  | text (message : String)
  | other
  deriving DecidableEq, Repr

/-- How a callback ends. -/
inductive Delivery where
  | accepted
  /-- An error, with its causes from the outermost inwards. -/
  | failed (causes : List String)
  | panicked (payload : Payload)
  deriving DecidableEq, Repr

def Payload.message : Payload → String
  | text message => message
  | other => "unknown panic"

def Delivery.log : Delivery → Log
  | accepted => []
  | failed causes =>
    [.error ("Unexpected error from metrics callback: " ++ ": ".intercalate causes)]
  | panicked payload => [.error ("Metrics callback panicked: " ++ payload.message)]

/-- What a cycle handed over, how the callback ended on it, and what the cycle left behind. -/
structure Cycle (σ κ : Type) where
  batch : Batch
  delivery : Delivery
  loop : PollingLoop
  source : σ
  callback : κ
  log : Log

/-- Gathers one batch and hands it to the callback, whose end is only logged. The callback is a
machine: how it ends on a batch may depend on all that it was handed before. -/
def runCycle (p : PollingLoop) (src : Source σ) (receive : κ → Batch → Delivery × κ) (s : σ)
    (k : κ) : Cycle σ κ :=
  let (batch, p, s, log) := p.gather src s
  let (delivery, k) := receive k batch
  ⟨batch, delivery, p, s, k, log ++ delivery.log⟩

end PollingLoop

end HostGauge
