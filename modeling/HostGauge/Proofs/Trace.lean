import Mathlib.Data.List.Basic

/-!
Runs of a step relation whose steps are labelled with events. What holds of a start, and goes over
with every further step, holds of all runs; it may speak of the events so far.
-/
namespace HostGauge

variable {α ε : Type*}

inductive Trace (step : α → ε → α → Prop) : α → List ε → α → Prop where
  | nil (a : α) : Trace step a [] a
  | cons {a b c : α} {e : ε} {events : List ε} (first : step a e b)
      (rest : Trace step b events c) : Trace step a (e :: events) c

namespace Trace

variable {step : α → ε → α → Prop} {a b c : α} {events : List ε}

theorem split {before after : List ε} (h : Trace step a (before ++ after) c) :
    ∃ b, Trace step a before b ∧ Trace step b after c := by
  induction before generalizing a with
  | nil => exact ⟨a, .nil a, h⟩
  | cons e before ih =>
      cases h with
      | cons first rest =>
          obtain ⟨b, hbefore, hafter⟩ := ih rest
          exact ⟨b, .cons first hbefore, hafter⟩

theorem append {before after : List ε} (h : Trace step a before b) (h' : Trace step b after c) :
    Trace step a (before ++ after) c := by
  induction h with
  | nil _ => exact h'
  | cons first _ ih => exact .cons first (ih h')

theorem history {P : List ε → α → Prop} (h : Trace step a events b) (hnil : P [] a)
    (hstep : ∀ events a e b, P events a → step a e b → P (events ++ [e]) b) : P events b := by
  induction h generalizing P with
  | nil a => exact hnil
  | @cons a b c e events first rest ih =>
      apply ih (P := fun events => P (e :: events))
      · exact hstep [] a e b hnil first
      · intro events a e' b hbefore hnext
        exact hstep _ _ _ _ hbefore hnext

end Trace

end HostGauge
