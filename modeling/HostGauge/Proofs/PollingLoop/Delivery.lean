import HostGauge.Proofs.PollingLoop.Isolation

/-!
Runs of cycles with a callback. A callback is a machine: how it ends on a batch may depend on the
batch and on all that it was handed before. A cycle asks it only once the batch is gathered, and
takes nothing back but an event for the log. So whatever callbacks do, the loop and its source pass
through the states of a run that only gathers, and the batches handed over are those gathered in it.
-/
namespace HostGauge

namespace PollingLoop

variable {σ κ : Type}

/-- What a cycle tells of the polling. -/
def Cycle.polled (c : Cycle σ κ) : Batch × PollingLoop × σ := (c.batch, c.loop, c.source)

/-- The first cycles of a run, each with the callback as the one before it left it. -/
def cycles (src : Source σ) (receive : κ → Batch → Delivery × κ) (p : PollingLoop) (s : σ) (k : κ) :
    ℕ → List (Cycle σ κ)
  | 0 => []
  | n + 1 =>
    let c := p.runCycle src receive s k
    c :: cycles src receive c.loop c.source c.callback n

/-- How a callback ends on some batches, one after the other. -/
def endings (receive : κ → Batch → Delivery × κ) : κ → List Batch → List Delivery
  | _, [] => []
  | k, batch :: rest => (receive k batch).1 :: endings receive (receive k batch).2 rest

/-- What the gather with this number writes to the log, the first one being zero. -/
def gatherLogAt (p : PollingLoop) (src : Source σ) (s : σ) (n : ℕ) : Log :=
  ((p.afterGathers src s n).1.gather src (p.afterGathers src s n).2).2.2.2

/-! ### Runs that only gather -/

theorem afterGathers_succ (p : PollingLoop) (src : Source σ) (s : σ) (n : ℕ) :
    p.afterGathers src s (n + 1) =
      (p.gather src s).2.1.afterGathers src (p.gather src s).2.2.1 n := by
  induction n with
  | zero => rfl
  | succ n ih =>
      rw [afterGathers, ih]
      rfl

theorem batchAt_succ (p : PollingLoop) (src : Source σ) (s : σ) (n : ℕ) :
    p.batchAt src s (n + 1) = (p.gather src s).2.1.batchAt src (p.gather src s).2.2.1 n := by
  rw [batchAt, afterGathers_succ]
  rfl

theorem gatherLogAt_succ (p : PollingLoop) (src : Source σ) (s : σ) (n : ℕ) :
    p.gatherLogAt src s (n + 1) =
      (p.gather src s).2.1.gatherLogAt src (p.gather src s).2.2.1 n := by
  rw [gatherLogAt, afterGathers_succ]
  rfl

/-- A loop that was never started stays so, and gathers nothing. -/
theorem batchAt_of_not_started {p : PollingLoop} (h : p.factory = none) (src : Source σ) (s : σ)
    (n : ℕ) : p.batchAt src s n = [] := by
  induction n generalizing p s with
  | zero => exact (gather_of_none h src s).1
  | succ n ih =>
      rw [batchAt_succ]
      exact ih (gather_of_none h src s).2.1 _

/-! ### Runs of cycles -/

variable {src : Source σ} {receive : κ → Batch → Delivery × κ}

theorem map_polled_cycles (p : PollingLoop) (s : σ) (k : κ) (n : ℕ) :
    (cycles src receive p s k n).map Cycle.polled =
      (List.range n).map fun i => (p.batchAt src s i, p.afterGathers src s (i + 1)) := by
  induction n generalizing p s k with
  | zero => rfl
  | succ n ih =>
      have hrest := ih (p.gather src s).2.1 (p.gather src s).2.2.1 (receive k (p.gather src s).1).2
      rw [List.range_succ_eq_map, List.map_cons, List.map_map]
      refine congrArg (((p.batchAt src s 0, p.afterGathers src s 1)) :: ·) ?_
      refine hrest.trans (List.map_congr_left fun i _ => ?_)
      rw [Function.comp_apply, batchAt_succ, afterGathers_succ p src s (i + 1)]

/-- The callback ends on the batches handed over as it ends on them by itself. -/
theorem map_delivery_cycles (p : PollingLoop) (s : σ) (k : κ) (n : ℕ) :
    (cycles src receive p s k n).map Cycle.delivery =
      endings receive k ((cycles src receive p s k n).map Cycle.batch) := by
  induction n generalizing p s k with
  | zero => rfl
  | succ n ih => exact congrArg ((receive k (p.gather src s).1).1 :: ·) (ih _ _ _)

theorem map_log_cycles (p : PollingLoop) (s : σ) (k : κ) (n : ℕ) :
    (cycles src receive p s k n).map Cycle.log =
      List.zipWith (fun i (c : Cycle σ κ) => p.gatherLogAt src s i ++ c.delivery.log)
        (List.range n) (cycles src receive p s k n) := by
  induction n generalizing p s k with
  | zero => rfl
  | succ n ih =>
      have hrest := ih (p.gather src s).2.1 (p.gather src s).2.2.1 (receive k (p.gather src s).1).2
      rw [List.range_succ_eq_map]
      simp only [cycles, List.map_cons, List.zipWith_cons_cons, List.zipWith_map_left,
        gatherLogAt_succ]
      exact congrArg (_ :: ·) hrest

variable {κ₁ κ₂ : Type}

/-- Whatever their callbacks do, two runs of cycles from one loop hand over one batch in each cycle,
the same one in both, and after each cycle their loops are the same, with factory, tracker and both
throttle slots, and so are their sources. All of it is as in a run that only gathers; no batch has a
tuple where the loop was never started. How a callback ends depends on the batches that it is
handed, and shows only in the log of the cycle, after what was gathered. -/
theorem polling_undisturbed (p : PollingLoop) (src : Source σ) (s : σ)
    (receive₁ : κ₁ → Batch → Delivery × κ₁) (k₁ : κ₁)
    (receive₂ : κ₂ → Batch → Delivery × κ₂) (k₂ : κ₂) (n : ℕ) :
    let one := cycles src receive₁ p s k₁ n
    let two := cycles src receive₂ p s k₂ n
    one.length = n ∧ two.length = n ∧
      one.map Cycle.batch = two.map Cycle.batch ∧
      one.map Cycle.loop = two.map Cycle.loop ∧
      one.map Cycle.source = two.map Cycle.source ∧
      one.map Cycle.polled =
        ((List.range n).map fun i => (p.batchAt src s i, p.afterGathers src s (i + 1))) ∧
      (p.factory = none → ∀ c ∈ one, c.batch = []) ∧
      one.map Cycle.delivery = endings receive₁ k₁ (one.map Cycle.batch) ∧
      one.map Cycle.log =
        List.zipWith (fun i (c : Cycle σ κ₁) => p.gatherLogAt src s i ++ c.delivery.log)
          (List.range n) one := by
  intro one two
  have hone : one.map Cycle.polled = _ := map_polled_cycles p s k₁ n
  have htwo : two.map Cycle.polled = _ := map_polled_cycles p s k₂ n
  have hsame : one.map Cycle.polled = two.map Cycle.polled := hone.trans htwo.symm
  -- Each part of a cycle that does not tell of its delivery is a part of what was polled.
  have hpart : ∀ {α : Type} (part : Batch × PollingLoop × σ → α),
      (one.map fun c => part c.polled) = two.map fun c => part c.polled := by
    intro α part
    have hmap := congrArg (List.map part) hsame
    rwa [List.map_map, List.map_map] at hmap
  refine ⟨?_, ?_, hpart Prod.fst, hpart fun polled => polled.2.1, hpart fun polled => polled.2.2,
    hone, ?_, map_delivery_cycles p s k₁ n, map_log_cycles p s k₁ n⟩
  · have hlength := congrArg List.length hone
    simpa only [List.length_map, List.length_range] using hlength
  · have hlength := congrArg List.length htwo
    simpa only [List.length_map, List.length_range] using hlength
  · intro hnone c hc
    have hmem : c.polled ∈ one.map Cycle.polled := List.mem_map_of_mem hc
    rw [hone] at hmem
    obtain ⟨i, -, hi⟩ := List.mem_map.mp hmem
    have hbatch : p.batchAt src s i = c.batch := congrArg Prod.fst hi
    rw [← hbatch]
    exact batchAt_of_not_started hnone src s i

end PollingLoop

end HostGauge
