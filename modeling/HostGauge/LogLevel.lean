/-!
Log levels, their names, and the events of the library.
-/
namespace HostGauge

inductive LogLevel where
  | off
  | error
  | warn
  | info
  | debug
  | trace
  deriving DecidableEq, Repr

namespace LogLevel

def all : List LogLevel := [off, error, warn, info, debug, trace]

def name : LogLevel → String
  | off => "off"
  | error => "error"
  | warn => "warn"
  | info => "info"
  | debug => "debug"
  | trace => "trace"

/-- A text with its ASCII capitals turned into small letters. -/
def lowercase (s : String) : String := String.ofList (s.toList.map Char.toLower)

/-- A level by its name, in any case. -/
def ofName? (s : String) : Option LogLevel := all.find? (·.name = lowercase s)

/-- Levels from the quietest up. -/
def rank : LogLevel → Nat
  | off => 0
  | error => 1
  | warn => 2
  | info => 3
  | debug => 4
  | trace => 5

theorem ofName?_name (l : LogLevel) : ofName? l.name = some l := by
  cases l <;> decide

/-- The message for a text that names no level. -/
def unknownMessage (s : String) : String :=
  "Invalid log level '" ++ lowercase s ++ "', expected one of off, error, warn, info, debug, trace"

end LogLevel

/-- One line of the log. -/
structure LogEvent where
  level : LogLevel
  message : String
  deriving DecidableEq, Repr

abbrev Log := List LogEvent

namespace LogEvent

def error (message : String) : LogEvent := ⟨.error, message⟩
def warn (message : String) : LogEvent := ⟨.warn, message⟩
def info (message : String) : LogEvent := ⟨.info, message⟩

end LogEvent

end HostGauge
