import HostGauge.Fault
import HostGauge.Duration

/-!
Rate limiting of recurring errors. The first error is reported and opens a window; the same
error within the window is suppressed. Another error, or the same one after the window, is
reported and opens a window of its own. A slot keeps one error at a time.
-/
namespace HostGauge

/-- A reading of the monotonic clock, in nanoseconds since some fixed moment. -/
abbrev Moment := Nat

/-- An error that was reported, and the end of its window. -/
structure ErrorWindow where
  key : Fault.Key
  expiresAt : Moment
  deriving DecidableEq, Repr

structure Throttle where
  window : Duration
  saved : Option ErrorWindow := none
  deriving DecidableEq, Repr

namespace Throttle

def standardWindow : Duration := .ofSeconds 3600

def standard : Throttle := ⟨standardWindow, none⟩

/-- The error that was reported last. -/
def lastReported (t : Throttle) : Option Fault.Key := t.saved.map (·.key)

def suppresses (t : Throttle) (key : Fault.Key) (now : Moment) : Bool :=
  match t.saved with
  | some saved => saved.key = key && now < saved.expiresAt
  | none => false

/-- Whether the error is to be reported at this moment, and the slot afterwards. -/
def shouldReport (t : Throttle) (key : Fault.Key) (now : Moment) : Bool × Throttle :=
  if t.suppresses key now then (false, t)
  else (true, { t with saved := some ⟨key, now + t.window.nanos⟩ })

end Throttle

end HostGauge
