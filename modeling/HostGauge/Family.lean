import HostGauge.Metric
import HostGauge.Source
import HostGauge.Utilization

/-!
The families of metrics, and the tuples of each for the answers of one gather.
-/
namespace HostGauge

inductive Family where
  | liveness
  | memory
  | processor
  | logicalDisks
  | network
  deriving DecidableEq, Repr

namespace Family

/-- The families in the order in which they are gathered. -/
def all : List Family := [liveness, memory, processor, logicalDisks, network]

def name : Family → String
  | liveness => "liveness"
  | memory => "memory"
  | processor => "processor"
  | logicalDisks => "logical disks"
  | network => "network"

end Family

namespace MetricFactory

def bytesPerMegabyte : UInt64 := 1048576

/-- kB as MB. -/
def megabytes (kilobytes : UInt64) : Float := kilobytes.toFloat / 1024.0

def textTag (name value : String) : String × Json := (name, .string value)

def countTag (name : String) (value : Nat) : String × Json := (name, .ofNat value)

def heartbeat (f : MetricFactory) (time : UtcInstant) : List MetricTuple :=
  [f.tuple "Computer" "Heartbeat" 1.0 [] time]

def memoryTuples (f : MetricFactory) (m : Memory) (time : UtcInstant) : List MetricTuple :=
  [f.tuple "Memory" "AvailableMB" (megabytes m.available)
    (Json.membersOf [(Tag.memorySize, .ofFloat (megabytes m.total))]) time]

/-- The busy percentage, tagged with the number of processors where it is known. -/
def processorTuples (f : MetricFactory) (percent : Float) (cpus : Option Nat)
    (time : UtcInstant) : List MetricTuple :=
  [f.tuple "Processor" "UtilizationPercentage" percent
    (Json.membersOf (cpus.toList.map (countTag Tag.totalCpus))) time]

/-- The tuples of one filesystem, whose size is not zero. -/
def filesystemTuples (f : MetricFactory) (time : UtcInstant) (fs : Filesystem) :
    List MetricTuple :=
  let mount := textTag Tag.mountId fs.mountPoint
  let size := countTag Tag.diskSize (fs.size / bytesPerMegabyte).toNat
  [f.tuple "LogicalDisk" "Status" 1.0 (Json.membersOf [mount]) time,
    f.tuple "LogicalDisk" "FreeSpacePercentage" (100.0 * fs.free.toFloat / fs.size.toFloat)
      (Json.membersOf [mount]) time,
    f.tuple "LogicalDisk" "FreeSpaceMB" (fs.free / bytesPerMegabyte).toFloat
      (Json.membersOf [mount, size]) time]

/-- The rates of one interface, unless no time has passed. -/
def trafficTuples (f : MetricFactory) (time : UtcInstant) (t : Traffic) : List MetricTuple :=
  let seconds := t.elapsed.toSeconds
  let rate (name : String) (bytes : UInt64) : MetricTuple :=
    f.tuple "Network" name (bytes.toFloat / seconds)
      (Json.membersOf [textTag Tag.networkDevice t.device, countTag Tag.bytes bytes.toNat]) time
  if seconds ≤ 0.0 then []
  else [rate "ReadBytesPerSecond" t.received, rate "WriteBytesPerSecond" t.sent]

end MetricFactory

end HostGauge
