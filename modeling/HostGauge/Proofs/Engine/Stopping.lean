import HostGauge.Engine.Worker
import HostGauge.Proofs.Trace

/-!
A worker and the controller that stops it, in every interleaving of their steps. What a stopped
worker may still deliver is the batch of the cycle that it is in, and a worker gets into a cycle
only by waking up with its flag set. The flag is never cleared without a wake-up for a worker that
sleeps, so none sleeps out its interval after it was stopped.
-/
namespace HostGauge

namespace Worker

open PollingLoop (Delivery)

variable {σ : Type}

/-- The interval of a worker that sleeps is over; it has not looked at the flag yet. -/
def timeOut (w : Worker σ) : Worker σ :=
  { w with
    phase :=
      match w.phase with
      | .asleep _ => .asleep true
      | phase => phase }

inductive Event where
  | start
  | sleep
  | timeOut
  /-- The wait is over, and says whether to go on. -/
  | wake (again : Bool)
  | cycle (batch : Batch)
  | panic
  | requestStop

/-- One step of the worker or of its controller. -/
inductive Step (src : Source σ) : Worker σ → Event → Worker σ → Prop where
  | start {w : Worker σ} (h : w.phase = .starting) : Step src w .start (w.start src).1
  | sleep {w : Worker σ} (h : w.phase = .ready) : Step src w .sleep w.sleep.1
  | timeOut {w : Worker σ} (h : w.phase = .asleep false) : Step src w .timeOut w.timeOut
  | wake {w : Worker σ} (h : w.phase = .asleep true) : Step src w (.wake w.running) w.wake.1
  | cycle {w : Worker σ} (h : w.phase = .cycling) {κ : Type}
      (receive : κ → Batch → Delivery × κ) (k : κ) :
      Step src w (.cycle (w.cycle src receive k).1) (w.cycle src receive k).2.1
  | panic {w : Worker σ} (h : w.phase = .starting ∨ w.phase = .cycling) : Step src w .panic w.panic
  | requestStop {w : Worker σ} : Step src w .requestStop w.requestStop

/-- The interleavings of a worker with its controller. -/
abbrev Run (src : Source σ) : Worker σ → List Event → Worker σ → Prop := Trace (Step src)

def Event.batch? : Event → Option Batch
  | cycle batch => some batch
  | _ => none

/-- The batches that are handed to the callback. -/
def delivered (events : List Event) : List Batch := events.filterMap Event.batch?

variable {src : Source σ} {w v u : Worker σ} {e : Event} {events : List Event}

theorem delivered_append (a b : List Event) : delivered (a ++ b) = delivered a ++ delivered b :=
  List.filterMap_append

theorem delivered_concat (events : List Event) (e : Event) :
    delivered (events ++ [e]) = delivered events ++ e.batch?.toList := by
  rw [delivered_append]
  cases e <;> rfl

theorem delivered_concat_eq_nil (h : delivered events = []) (hbatch : e.batch? = none) :
    delivered (events ++ [e]) = [] := by
  rw [delivered_concat, h, hbatch]
  rfl

/-! ### What a step does to the phase and to the flag -/

inductive Moves : WorkerPhase → Bool → Event → WorkerPhase → Bool → Prop where
  | started (flag : Bool) : Moves .starting flag .start .ready flag
  | failed (flag : Bool) : Moves .starting flag .start .ended flag
  | slept : Moves .ready true .sleep (.asleep false) true
  | declined : Moves .ready false .sleep .ended false
  | timedOut (flag : Bool) : Moves (.asleep false) flag .timeOut (.asleep true) flag
  | resumed : Moves (.asleep true) true (.wake true) .cycling true
  | ended : Moves (.asleep true) false (.wake false) .ended false
  | cycled (flag : Bool) (batch : Batch) : Moves .cycling flag (.cycle batch) .ready flag
  | panicked (phase : WorkerPhase) (flag : Bool) (h : phase = .starting ∨ phase = .cycling) :
      Moves phase flag .panic .panicked flag
  | woken (notified flag : Bool) : Moves (.asleep notified) flag .requestStop (.asleep true) false
  | stopped (phase : WorkerPhase) (flag : Bool) (h : ∀ notified, phase ≠ .asleep notified) :
      Moves phase flag .requestStop phase false

theorem start_moves (h : w.phase = .starting) :
    Moves w.phase w.running .start (w.start src).1.phase (w.start src).1.running := by
  rw [h]
  unfold start
  rcases w.loop.start src w.collector with ⟨answer, loop, s, log⟩
  cases answer with
  | ok _ => exact .started _
  | error fault => exact .failed _

theorem phase_start_of_error {fault : Fault} (h : (w.loop.start src w.collector).1 = .error fault) :
    (w.start src).1.phase = .ended := by
  unfold start
  rcases hstart : w.loop.start src w.collector with ⟨answer, loop, s, log⟩
  rw [hstart] at h
  cases h
  rfl

theorem sleep_moves (h : w.phase = .ready) :
    Moves w.phase w.running .sleep w.sleep.1.phase w.sleep.1.running := by
  unfold sleep
  cases hflag : w.running with
  | true =>
      simp only [if_true, h]
      exact .slept
  | false =>
      simp only [Bool.false_eq_true, if_false, h]
      exact .declined

theorem timeOut_moves (h : w.phase = .asleep false) :
    Moves w.phase w.running .timeOut w.timeOut.phase w.timeOut.running := by
  simp only [timeOut, h]
  exact .timedOut _

theorem wake_moves (h : w.phase = .asleep true) :
    Moves w.phase w.running (.wake w.running) w.wake.1.phase w.wake.1.running := by
  unfold wake
  cases hflag : w.running with
  | true =>
      simp only [if_true, h]
      exact .resumed
  | false =>
      simp only [Bool.false_eq_true, if_false, h]
      exact .ended

theorem requestStop_moves (w : Worker σ) :
    Moves w.phase w.running .requestStop w.requestStop.phase w.requestStop.running := by
  unfold requestStop
  cases hphase : w.phase with
  | asleep notified => exact .woken notified _
  | _ => exact .stopped _ _ nofun

theorem Step.moves (h : Step src w e v) : Moves w.phase w.running e v.phase v.running := by
  cases h with
  | start h => exact start_moves h
  | sleep h => exact sleep_moves h
  | timeOut h => exact timeOut_moves h
  | wake h => exact wake_moves h
  | cycle h receive k =>
      rw [h]
      exact .cycled _ _
  | panic h => exact .panicked _ _ h
  | requestStop => exact requestStop_moves w

theorem isAlive_requestStop (w : Worker σ) : w.requestStop.isAlive = w.isAlive := by
  unfold isAlive requestStop
  cases w.phase <;> rfl

/-- What has ended takes no more steps of its own. -/
theorem Step.isAlive (h : Step src w e v) (hown : e ≠ .requestStop) : w.isAlive = true := by
  cases h with
  | start h | sleep h | timeOut h | wake h | cycle h _ _ => simp only [Worker.isAlive, h]
  | panic h => rcases h with h | h <;> simp only [Worker.isAlive, h]
  | requestStop => exact absurd rfl hown

/-! ### A worker that was stopped -/

/-- How many batches are to be delivered before the next look at the flag. -/
def pending : WorkerPhase → ℕ
  | .cycling => 1
  | _ => 0

theorem pending_requestStop (w : Worker σ) : pending w.requestStop.phase = pending w.phase := by
  unfold requestStop
  cases w.phase <;> rfl

/-- The flag stays cleared, and what is delivered was pending. -/
theorem Step.delivered_add_pending (h : Step src w e v) (hstop : w.running = false) :
    v.running = false ∧ e.batch?.toList.length + pending v.phase ≤ pending w.phase := by
  have hmoves := h.moves
  rw [hstop] at hmoves
  generalize w.phase = before, v.phase = after, v.running = flag at hmoves ⊢
  cases hmoves with
  | panicked _ _ h => exact ⟨rfl, Nat.zero_le _⟩
  | stopped _ _ h => exact ⟨rfl, Nat.le_of_eq (Nat.zero_add _)⟩
  | cycled _ batch => exact ⟨rfl, Nat.le_refl 1⟩
  | _ => exact ⟨rfl, Nat.zero_le _⟩

theorem Run.delivered_add_pending (h : Run src w events v) (hstop : w.running = false) :
    v.running = false ∧ (delivered events).length + pending v.phase ≤ pending w.phase := by
  refine h.history (P := fun events v =>
    v.running = false ∧ (delivered events).length + pending v.phase ≤ pending w.phase) ?_ ?_
  · exact ⟨hstop, Nat.le_of_eq (Nat.zero_add _)⟩
  · rintro events v e u ⟨hv, hbefore⟩ hstep
    obtain ⟨hu, hnext⟩ := hstep.delivered_add_pending hv
    refine ⟨hu, ?_⟩
    rw [delivered_concat, List.length_append]
    omega

theorem pending_le_one (phase : WorkerPhase) : pending phase ≤ 1 := by
  cases phase with
  | cycling => exact Nat.le_refl 1
  | _ => exact Nat.zero_le 1

theorem pending_of_ne {phase : WorkerPhase} (h : phase ≠ .cycling) : pending phase = 0 := by
  cases phase with
  | cycling => exact absurd rfl h
  | _ => rfl

/-- A worker is in a cycle because its wait said to go on, and since then it was only stopped. -/
theorem Run.woken_of_cycling (h : Run src w events v) (hw : w.phase ≠ .cycling)
    (hv : v.phase = .cycling) :
    ∃ earlier later, events = earlier ++ .wake true :: later ∧ ∀ e ∈ later, e = .requestStop := by
  refine h.history (P := fun events v => v.phase = .cycling →
    ∃ earlier later, events = earlier ++ .wake true :: later ∧ ∀ e ∈ later, e = .requestStop)
    (fun hcycling => absurd hcycling hw) ?_ hv
  intro events v e u hbefore hstep hu
  have hmoves := hstep.moves
  rw [hu] at hmoves
  generalize v.phase = phase, v.running = flag, u.running = flag' at hmoves hbefore
  cases hmoves with
  | resumed => exact ⟨events, [], rfl, fun e he => absurd he List.not_mem_nil⟩
  | stopped _ _ _ =>
      obtain ⟨earlier, later, rfl, hstops⟩ := hbefore rfl
      refine ⟨earlier, later ++ [.requestStop], by simp, fun e he => ?_⟩
      rcases List.mem_append.mp he with hlater | hlast
      · exact hstops e hlater
      · exact List.mem_singleton.mp hlast

/-! ### A worker that has not slept -/

/-- Before the first wait, or after the end. -/
def Unrested : WorkerPhase → Prop
  | .asleep _ | .cycling => False
  | _ => True

theorem Step.unrested (h : Step src w e v) (he : e ≠ .sleep) (hw : Unrested w.phase) :
    Unrested v.phase ∧ e.batch? = none := by
  have hmoves := h.moves
  generalize w.phase = before, w.running = flag, v.phase = after, v.running = flag' at hmoves hw ⊢
  cases hmoves with
  | started | failed | declined | panicked => exact ⟨trivial, rfl⟩
  | stopped => exact ⟨hw, rfl⟩
  | slept => exact absurd rfl he
  | timedOut | resumed | ended | cycled | woken => exact hw.elim

theorem Run.unrested (h : Run src w events v) (hw : Unrested w.phase) (hsleep : .sleep ∉ events) :
    Unrested v.phase ∧ delivered events = [] := by
  refine h.history (P := fun events v => .sleep ∉ events →
    Unrested v.phase ∧ delivered events = []) (fun _ => ⟨hw, rfl⟩) ?_ hsleep
  intro events v e u hbefore hstep hsleep
  obtain ⟨hv, hnone⟩ := hbefore fun hmem => hsleep (List.mem_append_left _ hmem)
  have he : e ≠ .sleep := fun heq => hsleep (heq ▸ List.mem_concat_self)
  obtain ⟨hu, hbatch⟩ := hstep.unrested he hv
  exact ⟨hu, delivered_concat_eq_nil hnone hbatch⟩

/-! ### A worker that cannot be started -/

/-- The worker has ended, or it is still to make a start that fails. -/
inductive Barren (src : Source σ) (w : Worker σ) : Prop where
  | starting {fault : Fault} (h : w.phase = .starting)
      (hfails : (w.loop.start src w.collector).1 = .error fault)
  | ended (h : w.phase = .ended ∨ w.phase = .panicked)

theorem Barren.step (h : Barren src w) (hstep : Step src w e v) :
    Barren src v ∧ e.batch? = none := by
  cases h with
  | starting hphase hfails =>
      cases hstep with
      | start _ => exact ⟨.ended (.inl (phase_start_of_error hfails)), rfl⟩
      | panic _ => exact ⟨.ended (.inr rfl), rfl⟩
      | requestStop =>
          refine ⟨.starting ?_ hfails, rfl⟩
          simp only [requestStop, hphase]
      | sleep h | timeOut h | wake h | cycle h _ _ =>
          rw [hphase] at h
          cases h
  | ended hended =>
      have hmoves := hstep.moves
      have hphase : (v.phase = .ended ∨ v.phase = .panicked) ∧ e.batch? = none := by
        generalize w.phase = before, w.running = flag, v.phase = after, v.running = flag'
          at hmoves hended ⊢
        cases hmoves with
        | panicked => exact ⟨.inr rfl, rfl⟩
        | stopped => exact ⟨hended, rfl⟩
        | _ => simp at hended
      exact ⟨.ended hphase.1, hphase.2⟩

theorem Barren.run (hw : Barren src w) (h : Run src w events v) : delivered events = [] := by
  refine (h.history (P := fun events v => Barren src v ∧ delivered events = []) ⟨hw, rfl⟩ ?_).2
  rintro events v e u ⟨hv, hnone⟩ hstep
  obtain ⟨hu, hbatch⟩ := hv.step hstep
  exact ⟨hu, delivered_concat_eq_nil hnone hbatch⟩

/-! ### A worker that sleeps -/

/-- A worker that sleeps with its flag cleared has a wake-up on its way. -/
def WakesIfStopped (w : Worker σ) : Prop := w.running = false → w.phase ≠ .asleep false

theorem WakesIfStopped.step (h : w.WakesIfStopped) (hstep : Step src w e v) :
    v.WakesIfStopped := by
  have hmoves := hstep.moves
  unfold WakesIfStopped at h ⊢
  generalize w.phase = before, w.running = flag, v.phase = after, v.running = flag' at hmoves h ⊢
  cases hmoves with
  | slept => exact fun hstop => absurd hstop (by decide)
  | stopped _ _ hawake => exact fun _ => hawake false
  | _ => exact fun _ => nofun

theorem wakesIfStopped_requestStop (w : Worker σ) : w.requestStop.WakesIfStopped := by
  unfold WakesIfStopped requestStop
  cases w.phase <;> exact fun _ => nofun

/-- In every interleaving of a new worker with the controller: after a request to stop at most one
batch more is delivered, and only if the wait before it had said to go on, with nothing but requests
to stop since; where the request comes before the first wait, nothing is ever delivered. A worker
whose loop cannot be started delivers nothing. And no worker sleeps with its flag cleared and
without a wake-up on its way. -/
theorem stop_safe (interval : Duration) (computer : Option String) (collector : σ)
    (h : Run src (.ofCollector interval computer collector) events w) :
    (∀ before after, events = before ++ .requestStop :: after →
      (delivered after).length ≤ 1 ∧
      (delivered after ≠ [] → ∃ earlier later, before = earlier ++ .wake true :: later ∧
        ∀ e ∈ later, e = .requestStop) ∧
      (.sleep ∉ before → delivered events = [])) ∧
    ((∃ fault, (({ computer := computer } : PollingLoop).start src collector).1 = .error fault) →
      delivered events = []) ∧
    ¬ (w.running = false ∧ w.phase = .asleep false) := by
  refine ⟨?_, ?_, ?_⟩
  · rintro before after rfl
    obtain ⟨v, hbefore, hrest⟩ := h.split
    -- The request itself delivers nothing, and from it on the flag is cleared.
    have hle : (delivered after).length ≤ pending v.phase := by
      cases hrest with
      | cons hstop hafter =>
          cases hstop
          have hdelivered := (Run.delivered_add_pending hafter rfl).2
          rw [pending_requestStop] at hdelivered
          exact Nat.le_of_add_right_le hdelivered
    refine ⟨Nat.le_trans hle (pending_le_one _), ?_, ?_⟩
    · intro hdelivered
      have hcycling : v.phase = .cycling := by
        by_contra hne
        rw [pending_of_ne hne] at hle
        exact hdelivered (List.eq_nil_of_length_eq_zero (Nat.le_zero.mp hle))
      exact Run.woken_of_cycling hbefore nofun hcycling
    · intro hsleep
      obtain ⟨hv, hnone⟩ := Run.unrested hbefore trivial hsleep
      have hne : v.phase ≠ .cycling := by
        intro hcycling
        rw [hcycling] at hv
        exact hv
      rw [pending_of_ne hne] at hle
      rw [delivered_append, hnone]
      exact List.eq_nil_of_length_eq_zero (Nat.le_zero.mp hle)
  · rintro ⟨fault, hfails⟩
    have hnew : Barren src (ofCollector interval computer collector) := .starting rfl hfails
    exact hnew.run h
  · rintro ⟨hstop, hasleep⟩
    have hwakes : w.WakesIfStopped :=
      h.history (P := fun _ w => w.WakesIfStopped) nofun fun _ _ _ _ hw hstep => hw.step hstep
    exact hwakes hstop hasleep

/-- A host on which nothing changes, with neither filesystems nor traffic. -/
def steady : Source Unit where
  baseline _ := (.ok ⟨100.0, 50.0⟩, (), [])
  ids _ := (.ok (.single "a"), ())
  startSample := id
  memory _ := (.ok ⟨1, 2⟩, ())
  cpuCount _ := (.ok 2, ())
  cpuTimes _ := (.ok ⟨110.0, 52.0⟩, ())
  filesystems _ := (.ok [], ())
  traffic _ := (.ok [], ())
  endSample := id
  clock _ := (⟨0, ⟨0, 0⟩⟩, ())

/-- A callback that takes and counts the batches. -/
def counting (n : ℕ) (_ : Batch) : Delivery × ℕ := (.accepted, n + 1)

/-- A worker that is stopped within a cycle delivers the batch of this cycle. -/
theorem stop_safe_within_cycle :
    let w : Worker Unit := .ofCollector (.ofSeconds 60) none ()
    let woken := (w.start steady).1.sleep.1.timeOut.wake.1
    let batch := (woken.requestStop.cycle steady counting 0).1
    let before := [Event.start, .sleep, .timeOut, .wake true]
    ∃ v, Run steady w (before ++ .requestStop :: [.cycle batch]) v ∧
      delivered [.cycle batch] = [batch] ∧ (delivered [.cycle batch]).length ≤ 1 ∧
      (∃ earlier later, before = earlier ++ .wake true :: later ∧ ∀ e ∈ later, e = .requestStop) ∧
      ¬ (v.running = false ∧ v.phase = .asleep false) := by
  intro w woken batch before
  have hrun : Run steady w (before ++ .requestStop :: [.cycle batch])
      (woken.requestStop.cycle steady counting 0).2.1 :=
    .cons (.start rfl) <| .cons (.sleep rfl) <| .cons (.timeOut rfl) <| .cons (.wake rfl) <|
      .cons .requestStop <| .cons (.cycle rfl counting 0) <| .nil _
  obtain ⟨hstops, -, hwakes⟩ := stop_safe _ _ _ hrun
  obtain ⟨hone, hwoken, -⟩ := hstops before [.cycle batch] rfl
  exact ⟨_, hrun, rfl, hone, hwoken (List.cons_ne_nil _ _), hwakes⟩

end Worker

end HostGauge
