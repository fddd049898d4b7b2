import HostGauge.LogLevel

/-!
The process-wide log output. It is installed once, at a level; afterwards every further attempt
fails, and events above the level are dropped.
-/
namespace HostGauge

/-- Why the output was not installed. -/
inductive LoggingError where
  | unknownLevel (level : String)
  | alreadyInstalled
  deriving DecidableEq, Repr

def LoggingError.message : LoggingError → String
  | unknownLevel level => LogLevel.unknownMessage level
  | alreadyInstalled => "a global default trace dispatcher has already been set"

/-- The installed level, if any, and the lines written so far. -/
structure LogOutput where
  level : Option LogLevel := none
  lines : Log := []
  deriving DecidableEq, Repr

namespace LogOutput

def write (out : LogOutput) (event : LogEvent) : LogOutput :=
  match out.level with
  | some level =>
    if event.level.rank ≤ level.rank then { out with lines := out.lines ++ [event] } else out
  | none => out

/-- Installs the output at a level and says so in its first line. -/
def install (out : LogOutput) (level : String) : Except LoggingError LogOutput :=
  match LogLevel.ofName? level with
  | none => .error (.unknownLevel level)
  | some l =>
    match out.level with
    | some _ => .error .alreadyInstalled
    | none =>
      let opened : LogOutput := { out with level := some l }
      .ok (opened.write (.info ("Logging initialized with level: " ++ l.name)))

end LogOutput

end HostGauge
