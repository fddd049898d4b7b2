import HostGauge.AgentIds
import HostGauge.CpuTimes
import HostGauge.DiskInventory
import HostGauge.Filesystem
import HostGauge.Memory
import HostGauge.Processor
import HostGauge.Traffic

/-!
The collector of one host. A baseline captures what stays fixed, the agent's identifiers and the
facts about the processors, and the first samples of traffic and disks. What needs a baseline
answers with a fault before the first one.
-/
namespace HostGauge

/-- What a baseline captured, with the last samples of the interfaces. -/
structure Baseline where
  ids : Option AgentIds
  cpuCount : Except Fault Nat
  modulus : CounterModulus
  interfaces : Table InterfaceSample

structure Collector where
  root : String
  captured : Option Baseline := none
  disks : DiskInventory := { root := root }

namespace Collector

def ofRoot (root : String) : Collector := { root := root }

def baselined (interfaces : Nat) (m : CounterModulus) : LogEvent :=
  .info ("Collector baseline: " ++ String.ofList (Numeral.write interfaces)
    ++ " interfaces, counter modulus " ++ m.name)

/-- Captures a baseline and answers with the current reading of the uptime file. Nothing is
captured where the traffic cannot be read; once it is captured the baseline stays, whether or
not the uptime can be read. -/
def baseline (c : Collector) (host : Host) (now : Moment) :
    Except Fault (CpuTimes Float) × Collector × Log :=
  let facts := ProcessorFacts.read host c.root
  let modulus := CounterModulus.ofWordWidth facts.is64Bit
  match InterfaceSample.readAll host c.root now with
  | .error fault => (.error fault, c, [])
  | .ok interfaces =>
    let (disks, log) := c.disks.baseline host now
    let captured : Baseline :=
      { ids := AgentIds.read host c.root
        cpuCount := facts.count
        modulus := modulus
        interfaces := interfaces }
    (CpuTimes.read host c.root, { c with captured := some captured, disks := disks },
      log ++ [baselined interfaces.size modulus])

/-- The modulus of the counters, once there is a baseline. -/
def modulus? (c : Collector) : Option CounterModulus := c.captured.map (·.modulus)

def require (c : Collector) : Except Fault Baseline :=
  match c.captured with
  | some b => .ok b
  | none => .error .notBaselined

def ids (c : Collector) : Except Fault AgentIds :=
  match c.require with
  | .error fault => .error fault
  | .ok b =>
    match b.ids with
    | some ids => .ok ids
    | none => .error (.unavailable .agentIds)

def memory (c : Collector) (host : Host) : Except Fault Memory := Memory.read host c.root

def cpuTimes (c : Collector) (host : Host) : Except Fault (CpuTimes Float) :=
  CpuTimes.read host c.root

def cpuCount (c : Collector) : Except Fault Nat := c.require.bind (·.cpuCount)

def filesystems (c : Collector) (host : Host) : Except Fault (List Filesystem) :=
  Filesystem.readAll host c.root

/-- The traffic since the last samples, which the current ones replace. -/
def traffic (c : Collector) (host : Host) (now : Moment) :
    Except Fault (List Traffic) × Collector :=
  match c.captured with
  | none => (.error .notBaselined, c)
  | some b =>
    match InterfaceSample.readAll host c.root now with
    | .error fault => (.error fault, c)
    | .ok current =>
      (.ok (Traffic.between b.interfaces current b.modulus),
        { c with captured := some { b with interfaces := current } })

/-- The start of the path of every device. -/
def deviceDirectory : List Char := "/dev".toList

/-- The activity of a device since its last sample. -/
def diskActivity (c : Collector) (host : Host) (now : Moment) (device : String) :
    Except Fault DiskActivity × Collector :=
  if deviceDirectory.isPrefixOf device.toList then
    match c.captured with
    | none => (.error .notBaselined, c)
    | some b =>
      let (answer, disks) := c.disks.activity host now device b.modulus
      (answer, { c with disks := disks })
  else (.error (.invalidDevice device), c)

end Collector

end HostGauge
