import HostGauge.Host.Reading
import HostGauge.Json.Reader
import HostGauge.Numeral
import HostGauge.Table
import HostGauge.Text.Blank

/-!
The list of block devices with their logical sector sizes, as a utility writes it in JSON. A
record may also be given as an array of its fields in order. Sizes that are no unsigned integers
of 64 bits, written as a number or as a string, are left out.
-/
namespace HostGauge

/-- One entry of the list, with the size as it was given. -/
structure DeviceEntry where
  name : String
  sectorSize : Option Json

namespace DeviceEntry

/-- How deep the value of a size may nest within the list. -/
def valueDepth : Nat := Json.maxDepth - 3

def name? : Json.Document → Option String
  | .string s => s.text?
  | _ => none

/-- A size that was given; a null is none. -/
def given? : Json.Document → Option (Option Json)
  | .null => some none
  | d => (d.value? valueDepth).map some

/-- The fields seen so far in an object. -/
structure Fields where
  name : Option String := none
  sectorSize : Option (Option Json) := none

/-- Adds a member; a field given twice is refused and other members are skipped. -/
def Fields.add? (fields : Fields) (member : Json.WrittenString × Json.Document) :
    Option Fields :=
  match member.1.text? with
  | none => none
  | some "name" =>
    match fields.name with
    | some _ => none
    | none => (name? member.2).map fun n => { fields with name := some n }
  | some "log-sec" =>
    match fields.sectorSize with
    | some _ => none
    | none => (given? member.2).map fun v => { fields with sectorSize := some v }
  | some _ => some fields

def ofDocument? : Json.Document → Option DeviceEntry
  | .object members =>
    match members.foldlM Fields.add? {} with
    | some ⟨some name, size⟩ => some ⟨name, size.getD none⟩
    | _ => none
  | .array [name] => (name? name).map fun n => ⟨n, none⟩
  | .array [name, size] =>
    match name? name, given? size with
    | some n, some v => some ⟨n, v⟩
    | _, _ => none
  | _ => none

/-- The size of an entry that can be used. -/
def usableSize? (entry : DeviceEntry) : Option UInt64 :=
  match entry.sectorSize with
  | some (.number (.integer n)) =>
    if 0 ≤ n && n < UInt64.size then some (UInt64.ofNat n.toNat) else none
  | some (.string s) => Numeral.word64? (Text.trim s.toList)
  | _ => none

end DeviceEntry

namespace DeviceList

def entries? : Json.Document → Option (List DeviceEntry)
  | .array items => items.mapM DeviceEntry.ofDocument?
  | _ => none

/-- Takes the list from a member; a list given twice is refused. -/
def add? (found : Option (List DeviceEntry)) (member : Json.WrittenString × Json.Document) :
    Option (Option (List DeviceEntry)) :=
  match member.1.text? with
  | none => none
  | some "blockdevices" =>
    match found with
    | some _ => none
    | none => (entries? member.2).map some
  | some _ => some found

/-- The entries of a document; a document without list has none. -/
def ofDocument? : Json.Document → Option (List DeviceEntry)
  | .object members => (members.foldlM add? none).map (·.getD [])
  | .array [] => some []
  | .array [list] => entries? list
  | _ => none

/-- The size of each device: the last one that can be used. -/
def sizes (entries : List DeviceEntry) : Table UInt64 :=
  Table.ofList (entries.filterMap fun e => e.usableSize?.map fun n => (e.name, n))

/-- A list that is refused is reported in the words of the JSON reader. -/
def parse (refusal : List Char → String) (text : List Char) : Except Fault (Table UInt64) :=
  match (Json.Document.parse? text).bind ofDocument? with
  | some entries => .ok (sizes entries)
  | none => .error (.unavailable (.malformedDeviceList (refusal text)))

/-- Lists all devices, or the given ones. -/
def command (root : String) (devices : List String) : Command where
  path := Path.joinAll root ["bin", "lsblk"]
  arguments := ["-psdJ", "-oNAME,FSTYPE,LOG-SEC"] ++ devices

def read (host : Host) (root : String) (devices : List String) : Except Fault (Table UInt64) :=
  (host.runText (command root devices)).bind (parse host.jsonRefusal)

end DeviceList

end HostGauge
