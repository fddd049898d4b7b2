import HostGauge.BlockDevice
import HostGauge.DeviceList
import HostGauge.LogLevel

/-!
Activity of block devices since they were last asked for. The inventory keeps the sector size of
every device once it is known, and the last sample of every device; a baseline asks for all
sizes again and starts with new samples.
-/
namespace HostGauge

structure DiskInventory where
  root : String
  sectorSizes : Table UInt64 := {}
  /-- The last sample of each device. -/
  saved : Table DiskSample := {}

namespace DiskInventory

def listingFailed (fault : Fault) : LogEvent :=
  .warn ("Unable to list block devices: " ++ fault.message)

/-- The samples of those devices that can be read. -/
def sampleAll (host : Host) (root : String) (now : Moment) (sizes : Table UInt64) :
    Table DiskSample :=
  Table.ofList <| sizes.entries.filterMap fun e =>
    match DiskSample.read host root e.1 e.2 now with
    | .ok sample => some (e.1, sample)
    | .error _ => none

/-- Forgets all samples, and where the devices can be listed replaces the sizes and takes new
samples. -/
def baseline (d : DiskInventory) (host : Host) (now : Moment) : DiskInventory × Log :=
  match DeviceList.read host d.root [] with
  | .error fault => ({ d with saved := {} }, [listingFailed fault])
  | .ok sizes =>
    ({ d with sectorSizes := sizes, saved := sampleAll host d.root now sizes }, [])

/-- The sector size of a device, asked for where it is not known. -/
def sectorSize (d : DiskInventory) (host : Host) (device : String) : Except Fault UInt64 :=
  match d.sectorSizes.find? device with
  | some size => .ok size
  | none =>
    match DeviceList.read host d.root [device] with
    | .error fault => .error fault
    | .ok sizes =>
      match sizes.find? device with
      | some size => .ok size
      | none => .error (.unavailable (.sectorSize device))

def saveSize (d : DiskInventory) (device : String) (size : UInt64) : DiskInventory :=
  { d with sectorSizes := d.sectorSizes.insert device size }

def save (d : DiskInventory) (device : String) (sample : DiskSample) : DiskInventory :=
  { d with saved := d.saved.insert device sample }

/-- The activity of a device since its last sample, which the current one replaces. -/
def activity (d : DiskInventory) (host : Host) (now : Moment) (device : String)
    (m : CounterModulus) : Except Fault DiskActivity × DiskInventory :=
  match d.sectorSize host device with
  | .error fault => (.error fault, d)
  | .ok size =>
    let d := d.saveSize device size
    match DiskSample.read host d.root device size now with
    | .error fault => (.error fault, d)
    | .ok current =>
      match d.saved.find? device with
      | some before => (.ok (.since current before m), d.save device current)
      | none => (.error (.unavailable (.previousSample device)), d.save device current)

end DiskInventory

end HostGauge
