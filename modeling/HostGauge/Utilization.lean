import HostGauge.CpuTimes

/-!
How busy the processors were: intervals between successive readings of the uptime file, and the
percentage of an interval that was not idle.
-/
namespace HostGauge

/-- The last reading, from which the next interval starts. -/
structure CpuTracker (α : Type) where
  previous : Option (CpuTimes α) := none
  deriving DecidableEq, Repr

namespace CpuTracker

variable {α : Type}

/-- Starts over from the reading of a baseline. -/
def startFrom (baseline : CpuTimes α) : CpuTracker α := ⟨some baseline⟩

/-- The interval up to the current reading, which is remembered. Without an earlier reading
there is no interval and nothing is remembered. -/
def advance [Sub α] (t : CpuTracker α) (current : CpuTimes α) :
    Except Fault (CpuTimes α) × CpuTracker α :=
  match t.previous with
  | none => (.error .notBaselined, t)
  | some previous => (.ok (current.since previous), ⟨some current⟩)

end CpuTracker

namespace Utilization

/-- The value moved into the range between `low` and `high`; a NaN stays. -/
def clamp (x low high : Float) : Float :=
  if x < low then low else if high < x then high else x

/-- The busy percentage of an interval. Idle seconds are summed over all processors, so they are
divided by their number, where it is known. -/
def percent (interval : CpuTimes Float) (cpus : Option Nat) : Except Fault Float :=
  if interval.uptime == 0.0 then .error (.unavailable .standstill)
  else
    let count := Float.ofNat (max (cpus.getD 1) 1)
    .ok (clamp (100.0 * (1.0 - interval.idle / (interval.uptime * count))) 0.0 100.0)

end Utilization

end HostGauge
