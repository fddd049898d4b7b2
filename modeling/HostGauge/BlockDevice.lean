import HostGauge.Counter
import HostGauge.Host.Reading
import HostGauge.Numeral
import HostGauge.Text.Blank
import HostGauge.Text.Line
import HostGauge.Throttle

/-!
Input and output of block devices. A sample holds the counters of one device at one moment, in
operations and in sectors; the activity between two samples counts operations and bytes.
-/
namespace HostGauge

/-- Cumulative counters of one block device at one moment. -/
structure DiskSample where
  device : String
  time : Moment
  reads : UInt64
  readSectors : UInt64
  writes : UInt64
  writeSectors : UInt64
  sectorSize : UInt64
  deriving DecidableEq, Repr

/-- Input and output of one block device between two samples. -/
structure DiskActivity where
  device : String
  elapsed : Duration
  reads : UInt64
  bytesRead : UInt64
  writes : UInt64
  bytesWritten : UInt64
  deriving DecidableEq, Repr

/-- The product, or the largest word where it does not fit. -/
def saturatingMul (a b : UInt64) : UInt64 :=
  UInt64.ofNat (min (a.toNat * b.toNat) (UInt64.size - 1))

/-- The activity from one sample to a later one, in sectors of the later sample's size. -/
def DiskActivity.since (now before : DiskSample) (m : CounterModulus) : DiskActivity where
  device := now.device
  elapsed := ⟨now.time - before.time⟩
  reads := m.delta before.reads now.reads
  bytesRead := saturatingMul (m.delta before.readSectors now.readSectors) now.sectorSize
  writes := m.delta before.writes now.writes
  bytesWritten := saturatingMul (m.delta before.writeSectors now.writeSectors) now.sectorSize

namespace DiskSample

/-- The counters on the first line of a device's statistics: at least seven fields, of which
the first, third, fifth and seventh are taken; a counter that is no numeral counts as zero. -/
def parse (device : String) (sectorSize : UInt64) (now : Moment) (text : List Char) :
    Option DiskSample :=
  match Text.fields ((Text.lines text).headD []) with
  | reads :: _ :: readSectors :: _ :: writes :: _ :: writeSectors :: _ =>
    let count (field : List Char) : UInt64 := (Numeral.word64? field).getD 0
    some ⟨device, now, count reads, count readSectors, count writes, count writeSectors,
      sectorSize⟩
  | _ => none

/-- The kernel's name of a device path. -/
def kernelName (device : String) : String :=
  match Text.stripStart "/dev/".toList device.toList with
  | some name => String.ofList name
  | none => device

/-- The file that holds a device's statistics. -/
def statPath (root device : String) : String :=
  Path.joinAll root ["sys", "class", "block", kernelName device, "stat"]

/-- The counters of a device; a file that cannot be read makes them unavailable. -/
def read (host : Host) (root device : String) (sectorSize : UInt64) (now : Moment) :
    Except Fault DiskSample :=
  let path := statPath root device
  match host.readText path with
  | .error cause => .error (.unavailable (.unreadableStat device path cause))
  | .ok text =>
    match parse device sectorSize now text with
    | some sample => .ok sample
    | none => .error (.unavailable (.shortStat device path))

end DiskSample

end HostGauge
