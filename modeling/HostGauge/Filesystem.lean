import HostGauge.Host.Reading
import HostGauge.Numeral
import HostGauge.Text.Blank
import HostGauge.Text.Line

/-!
Mounted filesystems of the ext family with their sizes in bytes. A record has a device below
`/dev/`, an absolute mount point and a size other than zero.
-/
namespace HostGauge

structure Filesystem where
  device : String
  mountPoint : String
  size : UInt64
  free : UInt64
  deriving DecidableEq, Repr

namespace Filesystem

/-- A record from its four fields, if they are valid; sizes are plain runs of digits. -/
def ofFields? (device mountPoint size free : List Char) : Option Filesystem :=
  if "/dev/".toList.isPrefixOf device && ['/'].isPrefixOf mountPoint then
    match Numeral.decimal64? size, Numeral.decimal64? free with
    | some size, some free =>
      if size = 0 then none
      else some ⟨String.ofList device, String.ofList mountPoint, size, free⟩
    | _, _ => none
  else none

/-- The types of filesystem that are reported. -/
def types : List String := ["ext2", "ext3", "ext4"]

/-- A line with type, device, mount point, size and free space, and nothing else. -/
def ofLine? (line : List Char) : Option Filesystem :=
  match Text.fields line with
  | [type, device, mountPoint, size, free] =>
    if String.ofList type ∈ types then ofFields? device mountPoint size free else none
  | _ => none

def parse (text : List Char) : List Filesystem := (Text.lines text).filterMap ofLine?

def command (root : String) : Command where
  path := Path.joinAll root ["bin", "df"]
  arguments := ["--block-size=1", "--output=fstype,source,target,size,avail"]

def readAll (host : Host) (root : String) : Except Fault (List Filesystem) :=
  (host.runText (command root)).map parse

/-- Whether one record stands before another by device, then mount point, size and free space. -/
def precedes (a b : Filesystem) : Bool :=
  if a.device ≠ b.device then a.device < b.device
  else if a.mountPoint ≠ b.mountPoint then a.mountPoint < b.mountPoint
  else if a.size ≠ b.size then a.size < b.size
  else a.free < b.free

def sort (records : List Filesystem) : List Filesystem :=
  records.mergeSort fun a b => !precedes b a

end Filesystem

end HostGauge
