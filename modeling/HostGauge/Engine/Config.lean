import HostGauge.Duration
import HostGauge.Host.Basic
import HostGauge.Settings.Basic

/-!
What a polling session is started with.
-/
namespace HostGauge

/-- Why no session was started. -/
inductive EngineError where
  | invalidSettings (problem : Settings.Problem)
  | shortInterval (interval : Duration)
  | alreadyStarted
  /-- The system refused the thread. -/
  | notSpawned (cause : FileFault)
  deriving DecidableEq, Repr

def EngineError.message : EngineError → String
  | invalidSettings problem => "invalid configuration: " ++ problem.message
  | shortInterval interval =>
    "invalid configuration: poll interval must be at least 1 second, got " ++ interval.text
  | alreadyStarted => "already started"
  | notSpawned cause => "failed to spawn polling thread: " ++ cause.message

structure EngineConfig where
  pollInterval : Duration := .ofSeconds 60
  computer : Option String := none
  shutdownGrace : Duration := .ofSeconds 5
  deriving DecidableEq, Repr

namespace EngineConfig

def shortestInterval : Duration := .ofSeconds 1

def ofSettings (s : Settings) : Except EngineError EngineConfig :=
  match s.validate with
  | .error problem => .error (.invalidSettings problem)
  | .ok () =>
    .ok
      { pollInterval := .ofSeconds s.pollInterval.toNat
        computer := s.computer
        shutdownGrace := .ofSeconds s.shutdownGrace.toNat }

def validate (c : EngineConfig) : Except EngineError Unit :=
  if c.pollInterval.nanos < shortestInterval.nanos then .error (.shortInterval c.pollInterval)
  else .ok ()

end EngineConfig

end HostGauge
