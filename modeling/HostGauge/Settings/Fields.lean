import HostGauge.Settings.Basic

/-!
Settings from named members, whatever the format of the file. A setting may be given once, by
its name or by its alias; members with other names are skipped; a setting that is not given has
its default.
-/
namespace HostGauge.Settings

inductive Field where
  | pollInterval
  | computer
  | root
  | shutdownGrace
  | logLevel
  deriving DecidableEq, Repr

namespace Field

/-- The fields in the order in which they are written. -/
def all : List Field := [pollInterval, computer, root, shutdownGrace, logLevel]

def name : Field → String
  | pollInterval => "poll_interval_seconds"
  | computer => "computer"
  | root => "root"
  | shutdownGrace => "shutdown_grace_seconds"
  | logLevel => "log_level"

/-- The other name of a field. -/
def alias? : Field → Option String
  | pollInterval => some "poll"
  | logLevel => some "log-level"
  | _ => none

def ofName? (s : String) : Option Field :=
  all.find? fun f => f.name = s || f.alias? = some s

end Field

/-- How the values of a format are read as the types of the settings. -/
structure ValueReader (α : Type) where
  word? : α → Option UInt64
  text? : α → Option String
  /-- A text, or nothing where the format says so. -/
  optionalText? : α → Option (Option String)

/-- The settings given so far. -/
structure Given where
  pollInterval : Option UInt64 := none
  computer : Option (Option String) := none
  root : Option String := none
  shutdownGrace : Option UInt64 := none
  logLevel : Option String := none
  deriving DecidableEq, Repr

namespace Given

variable {α : Type}

/-- Stores a value in a place that is still empty. -/
def fill {β : Type} : Option β → Option β → Option (Option β)
  | none, some value => some (some value)
  | _, _ => none

/-- Gives a setting its value; a second value and a value of the wrong kind are refused. -/
def set? (read : ValueReader α) (given : Given) (field : Field) (value : α) : Option Given :=
  match field with
  | .pollInterval =>
    (fill given.pollInterval (read.word? value)).map fun v => { given with pollInterval := v }
  | .computer =>
    (fill given.computer (read.optionalText? value)).map fun v => { given with computer := v }
  | .root => (fill given.root (read.text? value)).map fun v => { given with root := v }
  | .shutdownGrace =>
    (fill given.shutdownGrace (read.word? value)).map fun v => { given with shutdownGrace := v }
  | .logLevel =>
    (fill given.logLevel (read.text? value)).map fun v => { given with logLevel := v }

/-- Takes one member into account. -/
def add? (read : ValueReader α) (given : Given) (member : String × α) : Option Given :=
  match Field.ofName? member.1 with
  | some field => given.set? read field member.2
  | none => some given

/-- The settings, with the default for each that was not given. -/
def complete (given : Given) : Settings :=
  let standard : Settings := {}
  { pollInterval := given.pollInterval.getD standard.pollInterval
    computer := given.computer.getD standard.computer
    root := given.root.getD standard.root
    shutdownGrace := given.shutdownGrace.getD standard.shutdownGrace
    logLevel := given.logLevel.getD standard.logLevel }

end Given

variable {α : Type}

/-- The settings given by members. -/
def ofMembers? (read : ValueReader α) (members : List (String × α)) : Option Settings :=
  (members.foldlM (Given.add? read) {}).map Given.complete

/-- The settings given by values in the order of the fields, of which the last may be missing. -/
def ofValues? (read : ValueReader α) (values : List α) : Option Settings :=
  if Field.all.length < values.length then none
  else
    ((Field.all.zip values).foldlM (fun (given : Given) p => given.set? read p.1 p.2) {}).map
      Given.complete

end HostGauge.Settings
