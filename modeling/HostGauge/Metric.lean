import HostGauge.AgentIds
import HostGauge.Calendar
import HostGauge.Json.Printer
import HostGauge.Json.Reader

/-!
Metric tuples: flat records whose tags are already JSON text. A factory owns what all tuples of
a session share, the tag with the identifiers of the machine and the name of the computer.
-/
namespace HostGauge

/-- Named tags, in ascending order of their names. -/
abbrev Tags := List (String × Json)

namespace Tag

/-- The origin of every tuple and the start of the name of every tag. -/
def origin : String := "vm.azm.ms"

def machineId : String := "vm.azm.ms/machineId"
def memorySize : String := "vm.azm.ms/memorySizeMB"
def totalCpus : String := "vm.azm.ms/totalCpus"
def mountId : String := "vm.azm.ms/mountId"
def diskSize : String := "vm.azm.ms/diskSizeMB"
def networkDevice : String := "vm.azm.ms/networkDeviceId"
def bytes : String := "vm.azm.ms/bytes"

end Tag

structure MetricTuple where
  origin : String
  /-- The subject of the metric, such as `Memory`. -/
  subject : String
  name : String
  value : Float
  /-- Text of a JSON object. -/
  tags : String
  collectionTime : String
  computer : Option String
  deriving Repr

namespace MetricTuple

/-- The tags as a map; there are none where the text is no JSON object. -/
def tagMap (t : MetricTuple) : Tags :=
  match Json.parse? t.tags.toList with
  | some (.object members) => members
  | _ => []

/-- The members of a tuple's JSON form, in their order; a tuple without computer has none of
that name. -/
def members (t : MetricTuple) : List (String × Json) :=
  [("Origin", .string t.origin), ("Namespace", .string t.subject), ("Name", .string t.name),
    ("Value", .ofFloat t.value), ("Tags", .string t.tags),
    ("CollectionTime", .string t.collectionTime)]
    ++ t.computer.toList.map fun c => ("Computer", .string c)

/-- The JSON text of a tuple. -/
def json (t : MetricTuple) : List Char :=
  '\x7b' :: (Json.commaSeparated (Json.compactMembers t.members) ++ ['\x7d'])

end MetricTuple

structure MetricFactory where
  machineId : Json
  computer : Option String

namespace MetricFactory

/-- The tag value of one identifier. -/
def machineTag (id : String) : Json := .string ("m-" ++ id)

def ofIds (ids : AgentIds) (computer : Option String) : MetricFactory where
  machineId :=
    match ids with
    | .single id => machineTag id
    | .multiple ids => .array (ids.map machineTag)
  computer := computer

/-- A tuple with the given tags and the tag of the machine, which replaces one of its name. -/
def tuple (f : MetricFactory) (subject name : String) (value : Float) (tags : Tags)
    (time : UtcInstant) : MetricTuple where
  origin := Tag.origin
  subject := subject
  name := name
  value := value
  tags := String.ofList (Json.compact (.object (Json.insert Tag.machineId f.machineId tags)))
  collectionTime := String.ofList time.text
  computer := f.computer

end MetricFactory

end HostGauge
