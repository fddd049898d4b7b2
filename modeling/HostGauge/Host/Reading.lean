import HostGauge.Fault
import HostGauge.Host.Path
import HostGauge.Text.Utf8

/-!
Texts that a host provides: files as UTF-8, and the output of utilities.
-/
namespace HostGauge.Host

/-- The text of a file. -/
def readText (host : Host) (path : String) : Except FileFault (List Char) :=
  match host.read path with
  | .error cause => .error cause
  | .ok bytes =>
    match Text.Utf8.decode? bytes with
    | some text => .ok text
    | none => .error .notText

/-- The output of a utility that was found and ended with status zero. -/
def runText (host : Host) (command : Command) : Except Fault (List Char) :=
  match host.run command with
  | .notStarted cause => .error (.unavailable (.utilityNotStarted command.path cause))
  | .ended (.code 0) output => .ok (Text.Utf8.decodeLenient output)
  | .ended status _ => .error (.unavailable (.utilityFailed command.path status))

end HostGauge.Host
