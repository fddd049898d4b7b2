import HostGauge.Engine.Config
import HostGauge.Engine.Worker

/-!
The metrics engine: it starts and stops sessions, each with a worker of its own. Stopping clears
the worker's run flag, waits until the worker has ended or the grace period is over, and then
either takes the worker's collector into custody or leaves the worker to itself.
-/
namespace HostGauge

structure Session (σ : Type) where
  worker : Worker σ
  grace : Duration

structure Engine (σ : Type) where
  session : Option (Session σ) := none
  /-- Workers that had not ended when their session was stopped, the last one first. -/
  detached : List (Worker σ) := []
  /-- The collector of the last session that was stopped in good order. -/
  held : Option σ := none

/-- The last moment of the clock, whose seconds are signed words of 64 bits. -/
def lastMoment : Moment := Nat.pow 2 63 * Duration.second - 1

/-- When the grace period ends, unless that is beyond the last moment. -/
def deadline? (now : Moment) (grace : Duration) : Option Moment :=
  if now + grace.nanos ≤ lastMoment then some (now + grace.nanos) else none

namespace Engine

variable {σ : Type}

/-- Starts a session. The configuration is checked before the state of the engine; the thread is
asked for last, and the system answers whether it can be had. -/
def start (e : Engine σ) (c : EngineConfig) (collector : σ) (spawned : Except FileFault Unit) :
    Except EngineError (Engine σ) :=
  match c.validate with
  | .error error => .error error
  | .ok () =>
    match e.session with
    | some _ => .error .alreadyStarted
    | none =>
      match spawned with
      | .error cause => .error (.notSpawned cause)
      | .ok () =>
        let worker := Worker.ofCollector c.pollInterval c.computer collector
        .ok { e with session := some ⟨worker, c.shutdownGrace⟩ }

def mapWorker (e : Engine σ) (f : Worker σ → Worker σ) : Engine σ :=
  { e with session := e.session.map fun s => { s with worker := f s.worker } }

/-- The first half of stopping. It fails where the grace period ends beyond the clock. -/
def requestStop? (e : Engine σ) (now : Moment) : Option (Engine σ) :=
  match e.session with
  | none => some e
  | some s => (deadline? now s.grace).map fun _ => e.mapWorker Worker.requestStop

def notStopped (grace : Duration) : LogEvent :=
  .warn ("Polling thread did not stop within " ++ grace.text ++ ", detaching it")

def workerPanicked : LogEvent := .error "Polling thread panicked"

/-- The second half of stopping, when the worker has ended or the grace period is over. -/
def finishStop (e : Engine σ) : Engine σ × Log :=
  match e.session with
  | none => (e, [])
  | some s =>
    let e := { e with session := none }
    match s.worker.phase with
    | .ended => ({ e with held := some s.worker.collector }, [])
    | .panicked => (e, [workerPanicked])
    | _ => ({ e with detached := s.worker :: e.detached }, [notStopped s.grace])

/-- A session was started whose worker is still alive. -/
def isRunning (e : Engine σ) : Bool := e.session.any (·.worker.isAlive)

/-- Hands out the collector in custody. -/
def takeCollector (e : Engine σ) : Option σ × Engine σ := (e.held, { e with held := none })

end Engine

end HostGauge
