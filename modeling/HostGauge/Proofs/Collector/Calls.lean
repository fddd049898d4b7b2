import HostGauge.Proofs.Collector.Step
import HostGauge.Proofs.DiskInventory.Untimed
import HostGauge.Proofs.Traffic.Untimed

/-!
Runs of a collector: all its questions as one type, and what some calls answer and leave. Up to
the times of the samples a run does not turn on the moments of its calls, for forgetting the times
goes past every question.
-/
namespace HostGauge

def Baseline.untimed (b : Baseline) : Baseline :=
  { b with interfaces := b.interfaces.map .untimed }

namespace Collector

inductive Question where
  | baseline
  | modulus
  | ids
  | memory
  | cpuTimes
  | cpuCount
  | filesystems
  | traffic
  | diskActivity (device : String)
  deriving DecidableEq, Repr

/-- A question, with the host that is read and when. -/
structure Call where
  host : Host
  now : Moment
  question : Question

inductive Answer where
  | baseline (answer : Except Fault (CpuTimes Float)) (log : Log)
  | modulus (m : Option CounterModulus)
  | ids (answer : Except Fault AgentIds)
  | memory (answer : Except Fault Memory)
  | cpuTimes (answer : Except Fault (CpuTimes Float))
  | cpuCount (answer : Except Fault Nat)
  | filesystems (answer : Except Fault (List Filesystem))
  | traffic (answer : Except Fault (List Traffic))
  | diskActivity (answer : Except Fault DiskActivity)

def ask (c : Collector) (call : Call) : Answer × Collector :=
  match call.question with
  | .baseline =>
    let (answer, c, log) := c.baseline call.host call.now
    (.baseline answer log, c)
  | .modulus => (.modulus c.modulus?, c)
  | .ids => (.ids c.ids, c)
  | .memory => (.memory (c.memory call.host), c)
  | .cpuTimes => (.cpuTimes (c.cpuTimes call.host), c)
  | .cpuCount => (.cpuCount c.cpuCount, c)
  | .filesystems => (.filesystems (c.filesystems call.host), c)
  | .traffic =>
    let (answer, c) := c.traffic call.host call.now
    (.traffic answer, c)
  | .diskActivity device =>
    let (answer, c) := c.diskActivity call.host call.now device
    (.diskActivity answer, c)

def afterCalls (c : Collector) (calls : List Call) : Collector :=
  calls.foldl (fun c call => (c.ask call).2) c

def answers : Collector → List Call → List Answer
  | _, [] => []
  | c, call :: rest => (c.ask call).1 :: answers (c.ask call).2 rest

theorem diskActivity_of_some {c : Collector} {b : Baseline} (hb : c.captured = some b)
    {device : String} (hdevice : deviceDirectory.isPrefixOf device.toList) (host : Host)
    (now : Moment) :
    c.diskActivity host now device =
      (c.disks.answer b.modulus ⟨host, now, device⟩,
        { c with disks := c.disks.afterQuery b.modulus ⟨host, now, device⟩ }) := by
  simp only [diskActivity, hdevice, if_true, hb]
  rfl

theorem diskActivity_of_other {device : String}
    (hdevice : ¬ deviceDirectory.isPrefixOf device.toList) (c : Collector) (host : Host)
    (now : Moment) : c.diskActivity host now device = (.error (.invalidDevice device), c) := by
  simp only [diskActivity, if_neg hdevice]

/-! ### Up to times -/

def untimed (c : Collector) : Collector :=
  { c with captured := c.captured.map .untimed, disks := c.disks.untimed }

def Call.untimed (call : Call) : Call := { call with now := 0 }

def Answer.untimed : Answer → Answer
  | .traffic answer => .traffic (answer.map (·.map .untimed))
  | .diskActivity answer => .diskActivity (answer.map .untimed)
  | answer => answer

theorem captured_untimed (c : Collector) : c.untimed.captured = c.captured.map .untimed := rfl

theorem require_untimed (c : Collector) : c.untimed.require = c.require.map .untimed := by
  unfold require
  rw [captured_untimed]
  cases c.captured <;> rfl

theorem modulus?_untimed (c : Collector) : c.untimed.modulus? = c.modulus? := by
  unfold modulus?
  rw [captured_untimed]
  cases c.captured <;> rfl

theorem ids_untimed (c : Collector) : c.untimed.ids = c.ids := by
  unfold ids
  rw [require_untimed]
  cases c.require <;> rfl

theorem cpuCount_untimed (c : Collector) : c.untimed.cpuCount = c.cpuCount := by
  unfold cpuCount
  rw [require_untimed]
  cases c.require <;> rfl

theorem baseline_untimed (c : Collector) (host : Host) (now : Moment) :
    c.untimed.baseline host 0 =
      ((c.baseline host now).1, (c.baseline host now).2.1.untimed, (c.baseline host now).2.2) := by
  have hroot : c.untimed.root = c.root := rfl
  have hread := InterfaceSample.readAll_untimed host c.root now
  have hdisks := c.disks.baseline_untimed host now
  have hdisks' : c.untimed.disks = c.disks.untimed := rfl
  unfold baseline
  rw [hroot, hdisks', hdisks, ← hread]
  cases InterfaceSample.readAll host c.root now with
  | error fault => rfl
  | ok interfaces =>
      simp only [Except.map, untimed, Baseline.untimed, Table.size_map, Option.map_some]

theorem traffic_untimed (c : Collector) (host : Host) (now : Moment) :
    c.untimed.traffic host 0 =
      ((c.traffic host now).1.map (·.map .untimed), (c.traffic host now).2.untimed) := by
  cases hb : c.captured with
  | none =>
      have hb' : c.untimed.captured = none := by rw [captured_untimed, hb, Option.map_none]
      rw [traffic_of_none hb, traffic_of_none hb']
      rfl
  | some b =>
      have hb' : c.untimed.captured = some b.untimed := by
        rw [captured_untimed, hb, Option.map_some]
      have hread := InterfaceSample.readAll_untimed host c.root now
      cases hnow : InterfaceSample.readAll host c.root now with
      | error fault =>
          rw [hnow] at hread
          rw [traffic_of_error hb hnow, traffic_of_error hb' hread.symm]
          rfl
      | ok current =>
          rw [hnow] at hread
          have hbetween := Traffic.between_untimed b.interfaces current b.modulus
          rw [traffic_of_ok hb hnow, traffic_of_ok hb' hread.symm]
          exact Prod.ext (congrArg Except.ok hbetween) rfl

theorem diskActivity_untimed (c : Collector) (host : Host) (now : Moment) (device : String) :
    c.untimed.diskActivity host 0 device =
      ((c.diskActivity host now device).1.map .untimed,
        (c.diskActivity host now device).2.untimed) := by
  by_cases hdevice : deviceDirectory.isPrefixOf device.toList
  · cases hb : c.captured with
    | none =>
        simp only [diskActivity, if_pos hdevice, captured_untimed, hb, Option.map_none]
        rfl
    | some b =>
        have hb' : c.untimed.captured = some b.untimed := by
          rw [captured_untimed, hb, Option.map_some]
        obtain ⟨hanswer, hafter⟩ := c.disks.query_untimed b.modulus ⟨host, now, device⟩
        rw [diskActivity_of_some hb hdevice, diskActivity_of_some hb' hdevice]
        refine Prod.ext hanswer.symm ?_
        simp only [untimed, hafter]
        rfl
  · rw [diskActivity_of_other hdevice, diskActivity_of_other hdevice]
    rfl

/-- What a call does to a collector, whenever it is made, is up to times what it does to the
untimed one. -/
theorem ask_untimed (c : Collector) (call : Call) :
    c.untimed.ask call.untimed = ((c.ask call).1.untimed, (c.ask call).2.untimed) := by
  obtain ⟨host, now, question⟩ := call
  cases question with
  | baseline =>
      simp only [ask, Call.untimed, c.baseline_untimed host now]
      rfl
  | modulus => simp only [ask, Call.untimed, modulus?_untimed, Answer.untimed]
  | ids => simp only [ask, Call.untimed, ids_untimed, Answer.untimed]
  | memory => rfl
  | cpuTimes => rfl
  | cpuCount => simp only [ask, Call.untimed, cpuCount_untimed, Answer.untimed]
  | filesystems => rfl
  | traffic =>
      simp only [ask, Call.untimed, c.traffic_untimed host now]
      rfl
  | diskActivity device =>
      simp only [ask, Call.untimed, c.diskActivity_untimed host now device]
      rfl

/-- The answers of a run are up to times those of the untimed collector, all asked for at moment
zero. So runs that put the same questions about the same hosts to collectors that are the same up
to times are answered alike. -/
theorem answers_untimed (c : Collector) (calls : List Call) :
    (c.answers calls).map Answer.untimed = c.untimed.answers (calls.map Call.untimed) := by
  induction calls generalizing c with
  | nil => rfl
  | cons call rest ih =>
      simp only [answers, List.map_cons, ih, ask_untimed]

end Collector

end HostGauge
