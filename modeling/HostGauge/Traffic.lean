import HostGauge.Counter
import HostGauge.Host.Reading
import HostGauge.Numeral
import HostGauge.Table
import HostGauge.Text.Blank
import HostGauge.Text.Line
import HostGauge.Throttle

/-!
Network traffic per interface. A sample holds the byte counters of one interface at one moment;
`Traffic.between` turns two tables of samples into the traffic between them, in the order of the
interface names.
-/
namespace HostGauge

/-- Cumulative counters of one interface at one moment. -/
structure InterfaceSample where
  device : String
  time : Moment
  /-- The interface holds a route. -/
  up : Bool
  received : UInt64
  sent : UInt64
  deriving DecidableEq, Repr

/-- Traffic of one interface between two samples. -/
structure Traffic where
  device : String
  elapsed : Duration
  received : UInt64
  sent : UInt64
  deriving DecidableEq, Repr

/-- One row of the table of interfaces. -/
structure InterfaceRow where
  device : String
  received : UInt64
  sent : UInt64
  deriving DecidableEq, Repr

namespace InterfaceRow

/-- A row is a name, a colon and at least nine counters, of which the first and the ninth are
the bytes received and sent; a counter that is no numeral counts as zero. -/
def ofLine? (line : List Char) : Option InterfaceRow :=
  match Text.splitOnce ':' line with
  | none => none
  | some (name, counters) =>
    let name := Text.trim name
    if name.isEmpty || name.any Text.isBlank then none
    else
      let values := Text.fields counters
      match values[0]?, values[8]? with
      | some received, some sent =>
        some ⟨String.ofList name, (Numeral.word64? received).getD 0,
          (Numeral.word64? sent).getD 0⟩
      | _, _ => none

/-- The rows of the table, in its order. -/
def parse (text : List Char) : List InterfaceRow := (Text.lines text).filterMap ofLine?

end InterfaceRow

namespace Routes

/-- The first field of every line after the heading. -/
def parse (text : List Char) : List String :=
  ((Text.lines text).drop 1).filterMap fun line => (Text.fields line).head?.map String.ofList

/-- The interfaces that hold a route; none where the routes cannot be read. -/
def read (host : Host) (root : String) : List String :=
  match host.readText (Path.joinAll root ["proc", "net", "route"]) with
  | .ok text => parse text
  | .error _ => []

end Routes

namespace InterfaceSample

/-- Where a virtual interface of this name is listed. -/
def virtualPath (root device : String) : String :=
  Path.join (Path.joinAll root ["sys", "devices", "virtual", "net"]) device

/-- The last row of every interface that is not virtual. -/
def ofRows (isVirtual : String → Bool) (up : List String) (now : Moment)
    (rows : List InterfaceRow) : Table InterfaceSample :=
  Table.ofList <| (rows.filter (!isVirtual ·.device)).map fun row =>
    (row.device, ⟨row.device, now, row.device ∈ up, row.received, row.sent⟩)

/-- The counters of all interfaces that are not virtual. -/
def readAll (host : Host) (root : String) (now : Moment) :
    Except Fault (Table InterfaceSample) :=
  let up := Routes.read host root
  match host.readText (Path.joinAll root ["proc", "net", "dev"]) with
  | .error cause => .error (.file cause)
  | .ok text =>
    .ok (ofRows (fun device => host.isPresent (virtualPath root device)) up now
      (InterfaceRow.parse text))

end InterfaceSample

namespace Traffic

def isActive (t : Traffic) : Bool := t.received ≠ 0 || t.sent ≠ 0

/-- The traffic from one sample to a later one, corrected for one wrap of the counters. -/
def since (now before : InterfaceSample) (m : CounterModulus) : Traffic where
  device := now.device
  elapsed := ⟨now.time - before.time⟩
  received := m.delta before.received now.received
  sent := m.delta before.sent now.sent

/-- The record of an interface that has no earlier sample. -/
def idle (now : InterfaceSample) : Traffic := ⟨now.device, .zero, 0, 0⟩

/-- The record of one interface, if there is one: an interface that is up has one, and one that
is down has one if its counters moved since an earlier sample. -/
def record? (previous : Table InterfaceSample) (m : CounterModulus)
    (device : String) (now : InterfaceSample) : Option Traffic :=
  match previous.find? device with
  | none => if now.up then some (idle now) else none
  | some before =>
    let traffic := since now before m
    if now.up || traffic.isActive then some traffic else none

/-- The records of all current interfaces, by name. -/
def between (previous current : Table InterfaceSample) (m : CounterModulus) : List Traffic :=
  (current.entries.filterMap fun e => record? previous m e.1 e.2).mergeSort
    fun a b => a.device ≤ b.device

end Traffic

end HostGauge
