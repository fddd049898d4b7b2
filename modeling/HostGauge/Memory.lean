import HostGauge.Host.Reading
import HostGauge.Numeral
import HostGauge.Text.Blank
import HostGauge.Text.Line

/-!
Available and total memory in kB. A line counts for a label if its first field is the label, its
second a 64-bit numeral and its third exactly `kB`. Lines are read until both labels have a
value; of several values of one label the last one read stays.
-/
namespace HostGauge

structure Memory where
  available : UInt64
  total : UInt64
  deriving DecidableEq, Repr

namespace Memory

/-- The label and the value of a line. -/
def entry? (line : List Char) : Option (String × UInt64) :=
  match Text.fields line with
  | label :: amount :: unit :: _ =>
    if unit = ['k', 'B'] then (Numeral.word64? amount).map fun n => (String.ofList label, n)
    else none
  | _ => none

/-- The values seen so far. -/
structure Seen where
  total : Option UInt64 := none
  available : Option UInt64 := none
  deriving DecidableEq, Repr

def Seen.isComplete (seen : Seen) : Bool := seen.total.isSome && seen.available.isSome

def Seen.add (seen : Seen) (line : List Char) : Seen :=
  match entry? line with
  | some ("MemTotal:", n) => { seen with total := some n }
  | some ("MemAvailable:", n) => { seen with available := some n }
  | _ => seen

def scan (seen : Seen) : List (List Char) → Seen
  | [] => seen
  | line :: rest =>
    let seen := seen.add line
    if seen.isComplete then seen else scan seen rest

def ofSeen (seen : Seen) : Except Fault Memory :=
  match seen.available, seen.total with
  | none, _ => .error (.unavailable .availableMemory)
  | some _, none => .error (.unavailable .totalMemory)
  | some available, some total => .ok ⟨available, total⟩

def parse (text : List Char) : Except Fault Memory := ofSeen (scan {} (Text.lines text))

/-- The memory of a host; a file that cannot be read is reported as it is. -/
def read (host : Host) (root : String) : Except Fault Memory :=
  match host.readText (Path.joinAll root ["proc", "meminfo"]) with
  | .error cause => .error (.file cause)
  | .ok text => parse text

end Memory

end HostGauge
