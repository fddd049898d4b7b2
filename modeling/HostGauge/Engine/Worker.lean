import HostGauge.Duration
import HostGauge.PollingLoop

/-!
The worker of a session. It starts its polling loop, then waits and runs one cycle in turn until
its run flag is cleared. Checking the flag and falling asleep are one step; so are clearing the
flag and waking the worker.
-/
namespace HostGauge

/-- What a worker is about to do. -/
inductive WorkerPhase where
  /-- Start its polling loop. -/
  | starting
  /-- Check the run flag, and fall asleep if it is set. -/
  | ready
  /-- Wake up, after the interval or because it was notified, and check the flag again. -/
  | asleep (notified : Bool)
  /-- Run one cycle. -/
  | cycling
  | ended
  | panicked
  deriving DecidableEq, Repr

structure Worker (σ : Type) where
  interval : Duration
  loop : PollingLoop
  /-- What the loop gets its figures from. -/
  collector : σ
  phase : WorkerPhase := .starting
  /-- The run flag. -/
  running : Bool := true

namespace Worker

open PollingLoop (Delivery)

variable {σ κ : Type}

def ofCollector (interval : Duration) (computer : Option String) (collector : σ) : Worker σ :=
  { interval := interval, loop := { computer := computer }, collector := collector }

def isAlive (w : Worker σ) : Bool :=
  match w.phase with
  | .ended | .panicked => false
  | _ => true

def notStarted (fault : Fault) : LogEvent :=
  .error ("Unable to get MMA IDs. Terminating: " ++ fault.message)

def polling (interval : Duration) : LogEvent :=
  .info ("Starting polling loop at " ++ String.ofList (Decimal.plain.text interval.toSeconds)
    ++ " second interval")

def stopping : LogEvent := .info "Stopping polling"

/-- Starts the loop; a worker whose loop cannot be started ends. -/
def start (w : Worker σ) (src : Source σ) : Worker σ × Log :=
  match w.loop.start src w.collector with
  | (.ok (), loop, s, log) =>
    ({ w with loop := loop, collector := s, phase := .ready }, log ++ [polling w.interval])
  | (.error fault, loop, s, log) =>
    ({ w with loop := loop, collector := s, phase := .ended }, log ++ [notStarted fault])

/-- Falls asleep, unless the flag is cleared. -/
def sleep (w : Worker σ) : Worker σ × Log :=
  if w.running then ({ w with phase := .asleep false }, [])
  else ({ w with phase := .ended }, [stopping])

/-- Wakes up and goes on to a cycle, unless the flag is cleared. -/
def wake (w : Worker σ) : Worker σ × Log :=
  if w.running then ({ w with phase := .cycling }, [])
  else ({ w with phase := .ended }, [stopping])

/-- Runs one cycle, whose batch the callback gets. -/
def cycle (w : Worker σ) (src : Source σ) (receive : κ → Batch → Delivery × κ) (k : κ) :
    Batch × Worker σ × κ × Log :=
  let c := w.loop.runCycle src receive w.collector k
  (c.batch, { w with loop := c.loop, collector := c.source, phase := .ready }, c.callback, c.log)

/-- Panics, as the code of a collector may. -/
def panic (w : Worker σ) : Worker σ := { w with phase := .panicked }

/-- Clears the run flag and wakes the worker if it sleeps. -/
def requestStop (w : Worker σ) : Worker σ :=
  { w with
    running := false
    phase :=
      match w.phase with
      | .asleep _ => .asleep true
      | phase => phase }

/-- What the worker does without waiting for the interval to pass. -/
def settle (w : Worker σ) (src : Source σ) : Worker σ × Log :=
  let (w, started) := if w.phase = .starting then w.start src else (w, [])
  let (w, slept) := if w.phase = .ready then w.sleep else (w, [])
  let (w, woken) := if w.phase = .asleep true then w.wake else (w, [])
  (w, started ++ slept ++ woken)

/-- The interval passes for a worker that sleeps: it wakes up, runs one cycle and falls asleep
again. Other workers do not notice it. -/
def passInterval (w : Worker σ) (src : Source σ) (receive : κ → Batch → Delivery × κ) (k : κ) :
    Worker σ × κ × Log :=
  match w.phase with
  | .asleep _ =>
    let (w, woken) := w.wake
    if w.phase = .cycling then
      let (_, w, k, cycled) := w.cycle src receive k
      let (w, slept) := w.sleep
      (w, k, woken ++ cycled ++ slept)
    else (w, k, woken)
  | _ => (w, k, [])

/-- The interval passes some number of times. -/
def passIntervals (src : Source σ) (receive : κ → Batch → Delivery × κ) :
    Nat → Worker σ → κ → Worker σ × κ × Log
  | 0, w, k => (w, k, [])
  | n + 1, w, k =>
    let (w, k, log) := w.passInterval src receive k
    let (w, k, more) := passIntervals src receive n w k
    (w, k, log ++ more)

/-- What the worker does before some time is over, counted from when it fell asleep, where a cycle
takes no time. -/
def pass (w : Worker σ) (src : Source σ) (receive : κ → Batch → Delivery × κ) (k : κ)
    (time : Duration) : Worker σ × κ × Log :=
  passIntervals src receive ((time.nanos - 1) / w.interval.nanos) w k

end Worker

end HostGauge
