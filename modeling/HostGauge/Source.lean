import HostGauge.AgentIds
import HostGauge.Calendar
import HostGauge.CpuTimes
import HostGauge.Filesystem
import HostGauge.LogLevel
import HostGauge.Memory
import HostGauge.Traffic

/-!
Where a polling loop gets its figures from. A source is a state with one transition for each
question, and one for reading the clocks; its answers are arbitrary, so a statement about all
sources covers every run of every collector. `Source.sample` puts the questions of one gather, each
exactly once.
-/
namespace HostGauge

/-- A reading of both clocks. -/
structure ClockReading where
  moment : Moment
  utc : UtcInstant
  deriving DecidableEq, Repr

structure Source (σ : Type) where
  /-- Starts the source over; what it logs comes with the answer. -/
  baseline : σ → Except Fault (CpuTimes Float) × σ × Log
  ids : σ → Except Fault AgentIds × σ
  startSample : σ → σ
  memory : σ → Except Fault Memory × σ
  cpuCount : σ → Except Fault Nat × σ
  cpuTimes : σ → Except Fault (CpuTimes Float) × σ
  filesystems : σ → Except Fault (List Filesystem) × σ
  traffic : σ → Except Fault (List Traffic) × σ
  endSample : σ → σ
  /-- Every look at the clocks is a transition of its own. -/
  clock : σ → ClockReading × σ

/-- An answer, and when it was given. -/
structure Timed (α : Type) where
  answer : Except Fault α
  time : ClockReading

/-- The answers of one gather. -/
structure Sample where
  start : ClockReading
  memory : Timed Memory
  cpuCount : Timed Nat
  cpuTimes : Timed (CpuTimes Float)
  filesystems : Timed (List Filesystem)
  traffic : Timed (List Traffic)

namespace Source

variable {σ : Type}

/-- Puts one question and notes the time of the answer. -/
def ask {α : Type} (src : Source σ) (question : σ → Except Fault α × σ) (s : σ) : Timed α × σ :=
  let (answer, s) := question s
  let (time, s) := src.clock s
  (⟨answer, time⟩, s)

def sample (src : Source σ) (s : σ) : Sample × σ :=
  let s := src.startSample s
  let (start, s) := src.clock s
  let (memory, s) := src.ask src.memory s
  let (cpuCount, s) := src.ask src.cpuCount s
  let (cpuTimes, s) := src.ask src.cpuTimes s
  let (filesystems, s) := src.ask src.filesystems s
  let (traffic, s) := src.ask src.traffic s
  (⟨start, memory, cpuCount, cpuTimes, filesystems, traffic⟩, src.endSample s)

/-! ### Recording the questions -/

inductive Question where
  | baseline
  | ids
  | startSample
  | memory
  | cpuCount
  | cpuTimes
  | filesystems
  | traffic
  | endSample
  deriving DecidableEq, Repr

/-- The source with a list of the questions put to it, the last one at its end. A look at the clocks
is no question. -/
def recorded (src : Source σ) : Source (List Question × σ) :=
  let note {α : Type} (q : Question) (f : σ → α × σ) : List Question × σ → α × List Question × σ :=
    fun s =>
      let (a, t) := f s.2
      (a, s.1 ++ [q], t)
  { baseline := fun s =>
      let (answer, t, log) := src.baseline s.2
      (answer, (s.1 ++ [.baseline], t), log)
    ids := note .ids src.ids
    startSample := fun s => (s.1 ++ [.startSample], src.startSample s.2)
    memory := note .memory src.memory
    cpuCount := note .cpuCount src.cpuCount
    cpuTimes := note .cpuTimes src.cpuTimes
    filesystems := note .filesystems src.filesystems
    traffic := note .traffic src.traffic
    endSample := fun s => (s.1 ++ [.endSample], src.endSample s.2)
    clock := fun s =>
      let (time, t) := src.clock s.2
      (time, s.1, t) }

end Source

end HostGauge
