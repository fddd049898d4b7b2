import HostGauge.Utilization
import Mathlib.Algebra.BigOperators.Group.List.Basic
import Mathlib.Algebra.Group.Basic

/-!
A tracker over the whole sequence of what reaches it. From a baseline on its intervals lie end to
end, each from the last input to the next one, so over numbers that subtract exactly they add up
to the distance from the baseline to the last reading. Before a baseline there is no interval.
-/
namespace HostGauge

/-- A reading, or an interval, in other numbers. -/
def CpuTimes.map {α β : Type} (value : α → β) (t : CpuTimes α) : CpuTimes β :=
  ⟨value t.uptime, value t.idle⟩

namespace CpuTracker

variable {α β : Type}

/-- The times that reach a tracker: those of a baseline, or the reading of a gather. -/
inductive Input (α : Type) where
  | baseline (times : CpuTimes α)
  | reading (times : CpuTimes α)
  deriving DecidableEq, Repr

namespace Input

def times : Input α → CpuTimes α
  | baseline times => times
  | reading times => times

def map (value : α → β) : Input α → Input β
  | baseline times => baseline (times.map value)
  | reading times => reading (times.map value)

end Input

section Subtraction

variable [Sub α]

def afterInput (t : CpuTracker α) : Input α → CpuTracker α
  | .baseline times => .startFrom times
  | .reading times => (t.advance times).2

def after (t : CpuTracker α) : List (Input α) → CpuTracker α
  | [] => t
  | input :: rest => (t.afterInput input).after rest

/-- What the tracker answers to the readings among some inputs. -/
def answers (t : CpuTracker α) : List (Input α) → List (Except Fault (CpuTimes α))
  | [] => []
  | .baseline times :: rest => answers (.startFrom times) rest
  | .reading times :: rest => (t.advance times).1 :: (t.advance times).2.answers rest

theorem after_append (t : CpuTracker α) (a b : List (Input α)) :
    t.after (a ++ b) = (t.after a).after b := by
  induction a generalizing t with
  | nil => rfl
  | cons input rest ih => exact ih _

theorem answers_append (t : CpuTracker α) (a b : List (Input α)) :
    t.answers (a ++ b) = t.answers a ++ (t.after a).answers b := by
  induction a generalizing t with
  | nil => rfl
  | cons input rest ih =>
      cases input with
      | baseline times => exact ih _
      | reading times => exact congrArg (_ :: ·) (ih _)

theorem advance_of_previous {t : CpuTracker α} {previous : CpuTimes α}
    (h : t.previous = some previous) (current : CpuTimes α) :
    t.advance current = (.ok (current.since previous), ⟨some current⟩) := by
  simp only [advance, h]

/-- Before a baseline a tracker stays empty, and answers that there was none. -/
theorem readings_of_empty (readings : List (CpuTimes α)) :
    after ({} : CpuTracker α) (readings.map .reading) = {} ∧
      answers ({} : CpuTracker α) (readings.map .reading) =
        readings.map fun _ => .error .notBaselined := by
  induction readings with
  | nil => exact ⟨rfl, rfl⟩
  | cons current rest ih => exact ⟨ih.1, congrArg (_ :: ·) ih.2⟩

theorem previous_afterInput {t : CpuTracker α} (h : t.previous ≠ none) (input : Input α) :
    (t.afterInput input).previous = some input.times := by
  cases input with
  | baseline times => rfl
  | reading times =>
      obtain ⟨previous, hprevious⟩ := Option.ne_none_iff_exists'.mp h
      rw [afterInput, advance_of_previous hprevious]
      rfl

/-- From a baseline on, each reading is answered with the interval from the input before. -/
theorem answers_startFrom (start : CpuTimes α) (readings : List (CpuTimes α)) :
    answers (.startFrom start) (readings.map .reading) =
      (List.zipWith CpuTimes.since readings (start :: readings)).map .ok := by
  induction readings generalizing start with
  | nil => rfl
  | cons current rest ih => exact congrArg (_ :: ·) (ih current)

end Subtraction

/-! ### Exact numbers -/

section Exact

variable [AddCommGroup α]

/-- What a part of the times makes over some intervals is how far it is from their start to their
end. -/
theorem sum_intervals (part : CpuTimes α → α)
    (hpart : ∀ current previous : CpuTimes α,
      part (current.since previous) = part current - part previous)
    (start : CpuTimes α) (readings : List (CpuTimes α)) :
    ((List.zipWith CpuTimes.since readings (start :: readings)).map part).sum =
      part (readings.getLastD start) - part start := by
  induction readings generalizing start with
  | nil => exact (sub_self _).symm
  | cons current rest ih =>
      rw [List.zipWith_cons_cons, List.map_cons, List.sum_cons, ih, hpart, List.getLastD_cons,
        add_comm, sub_add_sub_cancel]

/-- The answers to the readings since a baseline, with all times taken as exact numbers. -/
theorem sum_answers_since_baseline (t : CpuTracker α) (value : β → α)
    {inputs earlier : List (Input β)} {start : CpuTimes β} {readings : List (CpuTimes β)}
    (hinputs : inputs = earlier ++ .baseline start :: readings.map .reading) :
    ∃ intervals : List (CpuTimes α),
      t.answers (inputs.map (Input.map value)) =
        t.answers (earlier.map (Input.map value)) ++ intervals.map .ok ∧
      intervals.length = readings.length ∧
      (intervals.map (·.uptime)).sum =
        value (readings.getLastD start).uptime - value start.uptime ∧
      (intervals.map (·.idle)).sum = value (readings.getLastD start).idle - value start.idle := by
  let exact := readings.map (CpuTimes.map value)
  have hreadings : (readings.map Input.reading).map (Input.map value) =
      exact.map Input.reading := by
    simp only [exact, List.map_map]
    rfl
  have hlast : exact.getLastD (start.map value) = (readings.getLastD start).map value := by
    simp only [exact, List.getLastD_eq_getLast?, List.getLast?_map]
    cases readings.getLast? <;> rfl
  refine ⟨List.zipWith CpuTimes.since exact (start.map value :: exact), ?_, ?_, ?_, ?_⟩
  · rw [hinputs, List.map_append, answers_append, List.map_cons, hreadings]
    exact congrArg (_ ++ ·) (answers_startFrom (start.map value) exact)
  · simp [exact]
  · rw [sum_intervals (·.uptime) (fun _ _ => rfl), hlast]
    rfl
  · rw [sum_intervals (·.idle) (fun _ _ => rfl), hlast]
    rfl

end Exact

end CpuTracker

end HostGauge
