import HostGauge.LogLevel
import HostGauge.Numeral

/-!
Settings of the poller. Every setting has a default; `Settings.validate` refuses settings that
no session can be started with.
-/
namespace HostGauge

structure Settings where
  /-- Seconds between two polling cycles. -/
  pollInterval : UInt64 := 60
  /-- Name of the computer, stamped on every tuple. -/
  computer : Option String := none
  /-- Directory below which the files and utilities of the host are found. -/
  root : String := "/"
  /-- Seconds for which stopping waits for the worker. -/
  shutdownGrace : UInt64 := 5
  logLevel : String := "info"
  deriving DecidableEq, Repr, Inhabited

namespace Settings

/-- Why settings are refused. -/
inductive Problem where
  | zeroInterval
  | unknownLogLevel (level : String)
  | emptyRoot
  deriving DecidableEq, Repr

def Problem.message : Problem → String
  | zeroInterval => "poll_interval_seconds must be >= 1, got 0"
  | unknownLogLevel level => LogLevel.unknownMessage level
  | emptyRoot => "root must not be empty"

/-- The first problem, in the order interval, log level, root. -/
def problem? (s : Settings) : Option Problem :=
  if s.pollInterval = 0 then some .zeroInterval
  else if (LogLevel.ofName? s.logLevel).isNone then some (.unknownLogLevel s.logLevel)
  else if s.root.isEmpty then some .emptyRoot
  else none

def validate (s : Settings) : Except Problem Unit :=
  match s.problem? with
  | some p => .error p
  | none => .ok ()

end Settings

end HostGauge
