import HostGauge.Decimal.Reader
import HostGauge.Host.Reading
import HostGauge.Text.Blank
import HostGauge.Text.Line

/-!
Seconds since the host was started, and idle seconds summed over its processors: the first two
fields of the first line of the uptime file.
-/
namespace HostGauge

/-- A reading, or the difference of two. It is read as a pair of floating-point numbers; over
exact numbers differences add up. -/
structure CpuTimes (α : Type) where
  uptime : α
  idle : α
  deriving DecidableEq, Repr

namespace CpuTimes

def parse (text : List Char) : Except Fault (CpuTimes Float) :=
  let fields := (Text.fields ((Text.lines text).headD [])).map Decimal.float?
  match fields with
  | some uptime :: some idle :: _ => .ok ⟨uptime, idle⟩
  | some _ :: _ => .error (.unavailable .idleTime)
  | _ => .error (.unavailable .uptime)

def read (host : Host) (root : String) : Except Fault (CpuTimes Float) :=
  match host.readText (Path.joinAll root ["proc", "uptime"]) with
  | .error cause => .error (.file cause)
  | .ok text => parse text

/-- The time that passed between two readings. -/
def since {α : Type} [Sub α] (current previous : CpuTimes α) : CpuTimes α :=
  ⟨current.uptime - previous.uptime, current.idle - previous.idle⟩

end CpuTimes

end HostGauge
