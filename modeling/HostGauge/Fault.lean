import HostGauge.Host.Basic

/-!
What can go wrong while a host is read. `Absence` lists the recoverable causes: the figure in
question is left out for the cycle. A fault is recognised again by its kind and message.
-/
namespace HostGauge

/-- Why a figure is not available. -/
inductive Absence where
  | availableMemory
  | totalMemory
  | uptime
  | idleTime
  | processors
  | standstill
  | agentIds
  | utilityNotStarted (path : String) (cause : FileFault)
  | utilityFailed (path : String) (status : ExitStatus)
  /-- With what the JSON reader says of the list. -/
  | malformedDeviceList (refusal : String)
  | sectorSize (device : String)
  | previousSample (device : String)
  | unreadableStat (device path : String) (cause : FileFault)
  | shortStat (device path : String)
  | other (message : String)
  deriving DecidableEq, Repr

def Absence.message : Absence → String
  | availableMemory => "Available memory not found"
  | totalMemory => "Total memory not found"
  | uptime => "Uptime not found"
  | idleTime => "Idle time not found"
  | processors => "No CPUs found"
  | standstill => "uptime delta is zero"
  | agentIds => "no MMA ids found"
  | utilityNotStarted path cause => path ++ ": " ++ cause.message
  | utilityFailed path status => path ++ " exited with " ++ status.message
  | malformedDeviceList refusal => "invalid lsblk output: " ++ refusal
  | sectorSize device => "no sector size for " ++ device
  | previousSample device => "no previous data for " ++ device
  | unreadableStat device path cause =>
    "no data for " ++ device ++ ": " ++ path ++ ": " ++ cause.message
  | shortStat device path => "no data for " ++ device ++ ": " ++ path ++ " is empty"
  | other message => message

inductive Fault where
  /-- A getter was called before the first baseline. -/
  | notBaselined
  | unavailable (cause : Absence)
  | file (cause : FileFault)
  | invalidDevice (device : String)
  deriving DecidableEq, Repr

namespace Fault

def message : Fault → String
  | notBaselined => "baseline has not been called"
  | unavailable cause => cause.message
  | file cause => cause.message
  | invalidDevice device => device ++ " does not start with /dev"

def kind : Fault → String
  | notBaselined => "not_baselined"
  | unavailable _ => "unavailable"
  | file _ => "io"
  | invalidDevice _ => "invalid_device"

/-- A mistake of the caller, as opposed to a passing failure of the host. -/
def isFatal : Fault → Bool
  | notBaselined => true
  | _ => false

def isUnavailable : Fault → Bool
  | unavailable _ => true
  | _ => false

/-- What makes two faults the same for reporting. -/
structure Key where
  kind : String
  message : String
  deriving DecidableEq, Repr

def key (f : Fault) : Key := ⟨f.kind, f.message⟩

end Fault

end HostGauge
