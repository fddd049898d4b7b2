import HostGauge.Engine.Basic
import HostGauge.Proofs.Engine.Stopping

/-!
The threads of one engine, under every scheduling of its sessions' workers and every sequence of
starts and stops. A stop that ends with the grace period lets go of a worker that is still alive,
and the engine can then be started again: so there may be as many threads beside that of the session
as workers were let go of. All of these have their flag cleared, and each delivers at most the batch
of the cycle that it was in. Where no worker was let go of there is one thread at most.
-/
namespace HostGauge

namespace Engine

variable {σ : Type}

/-- The workers that the engine has started and not seen end. -/
def workers (e : Engine σ) : List (Worker σ) := (e.session.map (·.worker)).toList ++ e.detached

/-- A stop that fails, because its grace period ends beyond the clock, has told the worker to end
and lets go of it if it is alive. -/
def abandonStop (e : Engine σ) : Engine σ :=
  match e.session with
  | none => e
  | some s =>
    let strays := if s.worker.isAlive then [s.worker.requestStop] else []
    { e with session := none, detached := strays ++ e.detached }

end Engine

/-- An engine and its controller. While a stop is going on, the controller waits for the worker
until the deadline, and makes no other call. -/
structure Controlled (σ : Type) where
  engine : Engine σ := {}
  deadline : Option Moment := none

namespace Controlled

variable {σ : Type}

inductive Event where
  | start
  | requestStop
  /-- The stop is over, and says whether the worker was still alive. -/
  | finishStop (letGo : Bool)
  /-- The stop fails, and says the same. -/
  | abandonStop (letGo : Bool)
  /-- A step of the worker of the session, or of one that was let go of, and whether it ended. -/
  | session (event : Worker.Event) (ended : Bool)
  | detached (event : Worker.Event) (ended : Bool)

/-- One step of the controller or of a worker. Calls that neither start nor stop anything are no
steps. -/
inductive Step (src : Source σ) : Controlled σ → Event → Controlled σ → Prop where
  | start {e e' : Engine σ} {c : EngineConfig} {collector : σ} {spawned : Except FileFault Unit}
      (h : e.start c collector spawned = .ok e') : Step src ⟨e, none⟩ .start ⟨e', none⟩
  | requestStop {e e' : Engine σ} {s : Session σ} {now deadline : Moment}
      (hsession : e.session = some s) (hdeadline : deadline? now s.grace = some deadline)
      (h : e.requestStop? now = some e') :
      Step src ⟨e, none⟩ .requestStop ⟨e', some deadline⟩
  | finishStop {e : Engine σ} {now deadline : Moment} (h : e.isRunning = false ∨ deadline ≤ now) :
      Step src ⟨e, some deadline⟩ (.finishStop e.isRunning) ⟨e.finishStop.1, none⟩
  | abandonStop {e : Engine σ} {now : Moment} (h : e.requestStop? now = none) :
      Step src ⟨e, none⟩ (.abandonStop e.isRunning) ⟨e.abandonStop, none⟩
  | session {e : Engine σ} {s : Session σ} {w : Worker σ} {event : Worker.Event}
      {deadline : Option Moment} (hsession : e.session = some s)
      (h : Worker.Step src s.worker event w) (hown : event ≠ .requestStop) :
      Step src ⟨e, deadline⟩ (.session event (!w.isAlive))
        ⟨{ e with session := some { s with worker := w } }, deadline⟩
  | detached {e : Engine σ} {before after : List (Worker σ)} {w v : Worker σ}
      {event : Worker.Event} {deadline : Option Moment}
      (hdetached : e.detached = before ++ w :: after) (h : Worker.Step src w event v)
      (hown : event ≠ .requestStop) :
      Step src ⟨e, deadline⟩ (.detached event (!v.isAlive))
        ⟨{ e with detached := before ++ v :: after }, deadline⟩

abbrev Run (src : Source σ) : Controlled σ → List Event → Controlled σ → Prop := Trace (Step src)

def Event.isStart : Event → Bool
  | start => true
  | _ => false

/-- A worker ends. -/
def Event.isEnd : Event → Bool
  | session _ ended | detached _ ended => ended
  | _ => false

/-- A live worker is let go of. -/
def Event.letsGo : Event → Bool
  | finishStop letGo | abandonStop letGo => letGo
  | _ => false

/-- The batch that a worker delivers after it was let go of. -/
def Event.strayBatch? : Event → Option Batch
  | detached event _ => event.batch?
  | _ => none

/-! ### What a step does to the workers -/

/-- The worker of the session, whether it is being stopped, and the workers that were let go of. -/
inductive Moves (src : Source σ) : Option (Worker σ) → Bool → List (Worker σ) → Event →
    Option (Worker σ) → Bool → List (Worker σ) → Prop where
  | started {w : Worker σ} {strays : List (Worker σ)} (h : w.isAlive = true)
      (hflag : w.running = true) : Moves src none false strays .start (some w) false strays
  | requested {w : Worker σ} {strays : List (Worker σ)} :
      Moves src (some w) false strays .requestStop (some w.requestStop) true strays
  | joined {current : Option (Worker σ)} {strays : List (Worker σ)}
      (h : ∀ w ∈ current, w.isAlive = false) :
      Moves src current true strays (.finishStop false) none false strays
  | letGo {w : Worker σ} {strays : List (Worker σ)} (h : w.isAlive = true) :
      Moves src (some w) true strays (.finishStop true) none false (w :: strays)
  | dropped {w : Worker σ} {strays : List (Worker σ)} (h : w.isAlive = false) :
      Moves src (some w) false strays (.abandonStop false) none false strays
  | abandoned {w : Worker σ} {strays : List (Worker σ)} (h : w.isAlive = true) :
      Moves src (some w) false strays (.abandonStop true) none false (w.requestStop :: strays)
  | session {w v : Worker σ} {stopping : Bool} {strays : List (Worker σ)} {event : Worker.Event}
      (h : Worker.Step src w event v) (hown : event ≠ .requestStop) :
      Moves src (some w) stopping strays (.session event (!v.isAlive)) (some v) stopping strays
  | stray {current : Option (Worker σ)} {w v : Worker σ} {stopping : Bool}
      {before after : List (Worker σ)} {event : Worker.Event} (h : Worker.Step src w event v)
      (hown : event ≠ .requestStop) :
      Moves src current stopping (before ++ w :: after) (.detached event (!v.isAlive)) current
        stopping (before ++ v :: after)

/-- The worker of the session. -/
def current (x : Controlled σ) : Option (Worker σ) := x.engine.session.map (·.worker)

variable {src : Source σ} {x y : Controlled σ} {event : Event} {events : List Event}

theorem start_moves {e e' : Engine σ} {c : EngineConfig} {collector : σ}
    {spawned : Except FileFault Unit} (h : e.start c collector spawned = .ok e') :
    Moves src (e.session.map (·.worker)) false e.detached .start (e'.session.map (·.worker)) false
      e'.detached := by
  unfold Engine.start at h
  cases hvalid : c.validate with
  | error error =>
      rw [hvalid] at h
      cases h
  | ok _ =>
      rw [hvalid] at h
      cases hsession : e.session with
      | some s =>
          rw [hsession] at h
          cases h
      | none =>
          rw [hsession] at h
          cases spawned with
          | error cause => cases h
          | ok _ =>
              cases h
              exact .started rfl rfl

theorem requestStop_moves {e e' : Engine σ} {s : Session σ} {now deadline : Moment}
    (hsession : e.session = some s) (hdeadline : deadline? now s.grace = some deadline)
    (h : e.requestStop? now = some e') :
    Moves src (e.session.map (·.worker)) false e.detached .requestStop
      (e'.session.map (·.worker)) true e'.detached := by
  simp only [Engine.requestStop?, hsession, hdeadline, Option.map_some] at h
  cases h
  simp only [Engine.mapWorker, hsession, Option.map_some]
  exact .requested

theorem finishStop_moves (e : Engine σ) :
    Moves src (e.session.map (·.worker)) true e.detached (.finishStop e.isRunning)
      (e.finishStop.1.session.map (·.worker)) false e.finishStop.1.detached := by
  unfold Engine.finishStop Engine.isRunning
  cases hsession : e.session with
  | none =>
      simp only [hsession, Option.map_none, Option.any_none]
      exact .joined fun w hw => absurd hw (Option.not_mem_none w)
  | some s =>
      simp only [Option.map_some, Option.any_some]
      unfold Worker.isAlive
      cases hphase : s.worker.phase with
      | ended | panicked =>
          refine .joined fun w hw => ?_
          cases hw
          simp only [Worker.isAlive, hphase]
      | _ =>
          refine .letGo ?_
          simp only [Worker.isAlive, hphase]

theorem abandonStop_moves {e : Engine σ} {now : Moment} (h : e.requestStop? now = none) :
    Moves src (e.session.map (·.worker)) false e.detached (.abandonStop e.isRunning)
      (e.abandonStop.session.map (·.worker)) false e.abandonStop.detached := by
  unfold Engine.abandonStop Engine.isRunning
  cases hsession : e.session with
  | none =>
      rw [Engine.requestStop?, hsession] at h
      cases h
  | some s =>
      simp only [Option.map_some, Option.any_some]
      cases hlive : s.worker.isAlive with
      | false => exact .dropped hlive
      | true => exact .abandoned hlive

theorem Step.moves (h : Step src x event y) :
    Moves src x.current x.deadline.isSome x.engine.detached event y.current y.deadline.isSome
      y.engine.detached := by
  cases h with
  | start h => exact start_moves h
  | requestStop hsession hdeadline h => exact requestStop_moves hsession hdeadline h
  | finishStop h => exact finishStop_moves _
  | abandonStop h => exact abandonStop_moves h
  | session hsession h hown =>
      simp only [current, hsession, Option.map_some]
      exact .session h hown
  | detached hdetached h hown =>
      simp only [current, hdetached]
      exact .stray h hown

/-! ### What a run keeps -/

section Moves

variable {c c' : Option (Worker σ)} {stopping stopping' : Bool} {strays strays' : List (Worker σ)}

theorem Moves.live (h : Moves src c stopping strays event c' stopping' strays') :
    (c'.toList ++ strays').countP Worker.isAlive + event.isEnd.toNat =
      (c.toList ++ strays).countP Worker.isAlive + event.isStart.toNat := by
  cases h with
  | started hlive _ => simp [hlive, Event.isEnd, Event.isStart]
  | requested => simp [List.countP_cons, Worker.isAlive_requestStop, Event.isEnd, Event.isStart]
  | joined hended =>
      cases c with
      | none => rfl
      | some w => simp [hended w rfl, Event.isEnd, Event.isStart]
  | letGo _ => rfl
  | dropped hended => simp [hended, Event.isEnd, Event.isStart]
  | abandoned _ =>
      simp [List.countP_cons, Worker.isAlive_requestStop, Event.isEnd, Event.isStart]
  | @session w v _ _ _ hstep hown =>
      have hw := hstep.isAlive hown
      cases hv : v.isAlive <;> simp [hw, hv, Event.isEnd, Event.isStart]
  | @stray _ w v _ before after _ hstep hown =>
      have hw := hstep.isAlive hown
      simp only [List.countP_append, List.countP_cons, hw, Event.isEnd, Event.isStart]
      cases v.isAlive with
      | true => simp
      | false =>
          simp only [Bool.false_eq_true, if_false, if_true, Bool.not_false, Bool.toNat_true,
            Bool.toNat_false]
          omega

theorem Moves.length_strays (h : Moves src c stopping strays event c' stopping' strays') :
    strays'.length = strays.length + event.letsGo.toNat := by
  cases h <;> simp [Event.letsGo]

/-- The flags of the workers that were let go of are cleared, and so is that of a worker that is
being stopped. -/
def Stopped (c : Option (Worker σ)) (stopping : Bool) (strays : List (Worker σ)) : Prop :=
  (∀ w ∈ strays, w.running = false) ∧ (stopping = true → ∀ w ∈ c, w.running = false)

theorem stopped_of_strays (c : Option (Worker σ)) (h : ∀ w ∈ strays, w.running = false) :
    Stopped c false strays := ⟨h, fun hstop => absurd hstop Bool.false_ne_true⟩

theorem Moves.stopped (h : Moves src c stopping strays event c' stopping' strays')
    (hstopped : Stopped c stopping strays) : Stopped c' stopping' strays' := by
  obtain ⟨hstrays, hcurrent⟩ := hstopped
  cases h with
  | started _ _ | joined _ | dropped _ => exact stopped_of_strays _ hstrays
  | requested =>
      refine ⟨hstrays, fun _ w hw => ?_⟩
      cases hw
      rfl
  | letGo _ =>
      exact stopped_of_strays _ (List.forall_mem_cons.mpr ⟨hcurrent rfl _ rfl, hstrays⟩)
  | abandoned _ => exact stopped_of_strays _ (List.forall_mem_cons.mpr ⟨rfl, hstrays⟩)
  | session hstep _ =>
      refine ⟨hstrays, fun hstop w hw => ?_⟩
      cases hw
      exact (hstep.delivered_add_pending (hcurrent hstop _ rfl)).1
  | stray hstep _ =>
      rw [List.forall_mem_append, List.forall_mem_cons] at hstrays
      obtain ⟨hbefore, hw, hafter⟩ := hstrays
      refine ⟨?_, hcurrent⟩
      rw [List.forall_mem_append, List.forall_mem_cons]
      exact ⟨hbefore, (hstep.delivered_add_pending hw).1, hafter⟩

theorem Moves.wakesIfStopped (h : Moves src c stopping strays event c' stopping' strays')
    (hwakes : ∀ w ∈ c.toList ++ strays, w.WakesIfStopped) :
    ∀ w ∈ c'.toList ++ strays', w.WakesIfStopped := by
  rw [List.forall_mem_append] at hwakes ⊢
  obtain ⟨hcurrent, hstrays⟩ := hwakes
  cases h with
  | @started w _ _ hflag =>
      refine ⟨List.forall_mem_singleton.mpr fun hstop => ?_, hstrays⟩
      rw [hflag] at hstop
      cases hstop
  | @requested w _ =>
      exact ⟨List.forall_mem_singleton.mpr w.wakesIfStopped_requestStop, hstrays⟩
  | joined _ | dropped _ => exact ⟨List.forall_mem_nil _, hstrays⟩
  | letGo _ =>
      have hw := List.forall_mem_singleton.mp hcurrent
      exact ⟨List.forall_mem_nil _, List.forall_mem_cons.mpr ⟨hw, hstrays⟩⟩
  | @abandoned w _ _ =>
      have hw := w.wakesIfStopped_requestStop
      exact ⟨List.forall_mem_nil _, List.forall_mem_cons.mpr ⟨hw, hstrays⟩⟩
  | session hstep _ =>
      have hw := List.forall_mem_singleton.mp hcurrent
      exact ⟨List.forall_mem_singleton.mpr (hw.step hstep), hstrays⟩
  | stray hstep _ =>
      rw [List.forall_mem_append, List.forall_mem_cons] at hstrays
      obtain ⟨hbefore, hw, hafter⟩ := hstrays
      refine ⟨hcurrent, ?_⟩
      rw [List.forall_mem_append, List.forall_mem_cons]
      exact ⟨hbefore, hw.step hstep, hafter⟩

/-- How many workers that were let go of are still to deliver a batch. -/
def pending (strays : List (Worker σ)) : ℕ := strays.countP fun w => Worker.pending w.phase = 1

theorem pending_cons (w : Worker σ) (strays : List (Worker σ)) :
    pending (w :: strays) = Worker.pending w.phase + pending strays := by
  rw [pending, pending, List.countP_cons, Nat.add_comm]
  unfold Worker.pending
  cases w.phase <;> rfl

theorem pending_cons_le (w : Worker σ) (strays : List (Worker σ)) :
    pending (w :: strays) ≤ pending strays + 1 := by
  rw [pending_cons, Nat.add_comm]
  exact Nat.add_le_add_left (Worker.pending_le_one w.phase) _

theorem pending_append (a b : List (Worker σ)) : pending (a ++ b) = pending a + pending b :=
  List.countP_append

theorem Moves.pending_strays (h : Moves src c stopping strays event c' stopping' strays')
    (hstopped : Stopped c stopping strays) :
    event.strayBatch?.toList.length + pending strays' ≤ pending strays + event.letsGo.toNat := by
  -- Who is let go of brings one batch at most; what is delivered after that was pending.
  cases h with
  | letGo _ | abandoned _ =>
      simp only [Event.strayBatch?, Option.toList_none, List.length_nil, Nat.zero_add]
      exact pending_cons_le _ _
  | @stray _ w v _ before after e hstep _ =>
      have hw : w.running = false := hstopped.1 w (List.mem_append_right _ List.mem_cons_self)
      have hbatch := (hstep.delivered_add_pending hw).2
      simp only [Event.strayBatch?, Event.letsGo, pending_append, pending_cons, Bool.toNat_false]
      omega
  | _ => exact Nat.le_of_eq (Nat.zero_add _)

end Moves

/-- The accounts of a run: workers started, ended and let go of, and the batches of the latter. -/
structure Ledger (events : List Event) (x : Controlled σ) : Prop where
  live : x.engine.workers.countP Worker.isAlive + events.countP Event.isEnd =
    events.countP Event.isStart
  letGo : x.engine.detached.length = events.countP Event.letsGo
  stray : (events.filterMap Event.strayBatch?).length + pending x.engine.detached ≤
    events.countP Event.letsGo
  stopped : Stopped x.current x.deadline.isSome x.engine.detached
  wakes : ∀ w ∈ x.engine.workers, w.WakesIfStopped

theorem countP_concat (p : Event → Bool) (events : List Event) (e : Event) :
    (events ++ [e]).countP p = events.countP p + (p e).toNat := by
  rw [List.countP_append, List.countP_singleton]
  cases p e <;> rfl

theorem Ledger.step (h : Ledger events x) (hstep : Step src x event y) :
    Ledger (events ++ [event]) y := by
  have hmoves := hstep.moves
  have hlive := hmoves.live
  have hletGo := hmoves.length_strays
  have hpending := hmoves.pending_strays h.stopped
  refine ⟨?_, ?_, ?_, hmoves.stopped h.stopped, hmoves.wakesIfStopped h.wakes⟩
  · have hbefore := h.live
    rw [countP_concat, countP_concat]
    simp only [Engine.workers, ← current.eq_def] at hlive hbefore ⊢
    omega
  · rw [countP_concat, hletGo, h.letGo]
  · have hbefore := h.stray
    rw [countP_concat, List.filterMap_append, List.length_append]
    have hlast : ([event].filterMap Event.strayBatch?).length =
        event.strayBatch?.toList.length := by
      cases hbatch : event.strayBatch? <;> simp [hbatch]
    omega

theorem ledger_nil : Ledger [] ({} : Controlled σ) where
  live := rfl
  letGo := rfl
  stray := Nat.le_refl 0
  stopped := stopped_of_strays _ (List.forall_mem_nil _)
  wakes := List.forall_mem_nil _

theorem ledger (h : Run src {} events x) : Ledger events x :=
  h.history (P := Ledger) ledger_nil fun _ _ _ _ hbefore hstep => hbefore.step hstep

theorem countP_workers_le (p : Worker σ → Bool) (e : Engine σ) :
    e.workers.countP p ≤ 1 + e.detached.countP p := by
  have hsession : (e.session.map (·.worker)).toList.countP p ≤ 1 := by
    refine Nat.le_trans List.countP_le_length ?_
    cases e.session with
    | none => exact Nat.zero_le 1
    | some s => exact Nat.le_refl 1
  rw [Engine.workers, List.countP_append]
  exact Nat.add_le_add_right hsession _

/-- In every run of a new engine: the workers that are alive are those that were started and have
not ended, and all but one of them were let go of by a stop. Each of these has its flag cleared,
does not sleep without a wake-up on its way, and delivers at most the batch of the cycle that it is
in. Where no stop had to let go of a worker, one worker at most is alive, and no two run a cycle. -/
theorem threads_bounded (h : Run src {} events x) :
    x.engine.workers.countP Worker.isAlive + events.countP Event.isEnd =
      events.countP Event.isStart ∧
    x.engine.workers.countP Worker.isAlive ≤ 1 + x.engine.detached.countP Worker.isAlive ∧
    x.engine.detached.length = events.countP Event.letsGo ∧
    (∀ w ∈ x.engine.detached, w.running = false ∧ w.phase ≠ .asleep false ∧
      ∀ later v, Worker.Run src w later v →
        (Worker.delivered later).length ≤ Worker.pending w.phase) ∧
    (events.filterMap Event.strayBatch?).length ≤ events.countP Event.letsGo ∧
    (events.countP Event.letsGo = 0 →
      x.engine.workers.countP Worker.isAlive ≤ 1 ∧
      x.engine.workers.countP (fun w => w.phase = .cycling) ≤ 1) := by
  have hledger := ledger h
  refine ⟨hledger.live, countP_workers_le _ _, hledger.letGo, ?_, ?_, ?_⟩
  · intro w hw
    have hstop := hledger.stopped.1 w hw
    refine ⟨hstop, hledger.wakes w (List.mem_append_right _ hw) hstop, fun later v hlater => ?_⟩
    exact Nat.le_of_add_right_le (Worker.Run.delivered_add_pending hlater hstop).2
  · exact Nat.le_of_add_right_le hledger.stray
  · intro hnone
    have hdetached : x.engine.detached = [] := by
      rw [← List.length_eq_zero_iff, hledger.letGo, hnone]
    have hone : ∀ p : Worker σ → Bool, x.engine.workers.countP p ≤ 1 := by
      intro p
      have hle := countP_workers_le p x.engine
      rwa [hdetached, List.countP_nil] at hle
    exact ⟨hone _, hone _⟩

theorem Step.ofWorker {w v : Worker σ} {strays : List (Worker σ)} {event : Worker.Event}
    {grace : Duration} (h : Worker.Step src w event v) (hown : event ≠ .requestStop)
    (hlive : v.isAlive = true) :
    Step src ⟨{ session := some ⟨w, grace⟩, detached := strays }, none⟩ (.session event false)
      ⟨{ session := some ⟨v, grace⟩, detached := strays }, none⟩ := by
  have hstep : Step src ⟨{ session := some ⟨w, grace⟩, detached := strays }, none⟩
      (.session event (!v.isAlive))
      ⟨{ session := some ⟨v, grace⟩, detached := strays }, none⟩ :=
    .session (s := ⟨w, grace⟩) rfl h hown
  rwa [hlive] at hstep

/-- A session is started, and its worker gets into its first cycle. -/
def firstCycle : List Event :=
  [.start, .session .start false, .session .sleep false, .session .timeOut false,
    .session (.wake true) false]

/-- An engine is started again after a stop that did not wait for the cycle to end. -/
def restart : List Event := firstCycle ++ [.requestStop, .finishStop true] ++ firstCycle

/-- A worker of a host on which nothing changes, within its first cycle. -/
def busy : Worker Unit :=
  ((Worker.ofCollector (.ofSeconds 60) none ()).start Worker.steady).1.sleep.1.timeOut.wake.1

theorem run_firstCycle (strays : List (Worker Unit)) :
    Run Worker.steady ⟨{ detached := strays }, none⟩ firstCycle
      ⟨{ session := some ⟨busy, .ofSeconds 5⟩, detached := strays }, none⟩ := by
  have hstart : ({ detached := strays } : Engine Unit).start {} () (.ok ()) =
    .ok { session := some ⟨.ofCollector (.ofSeconds 60) none (), .ofSeconds 5⟩
          detached := strays } := rfl
  exact .cons (.start hstart) <| .cons (.ofWorker (.start rfl) nofun rfl) <|
    .cons (.ofWorker (.sleep rfl) nofun rfl) <| .cons (.ofWorker (.timeOut rfl) nofun rfl) <|
    .cons (.ofWorker (.wake rfl) nofun rfl) <| .nil _

theorem run_restart :
    Run Worker.steady {} restart
      ⟨{ session := some ⟨busy, .ofSeconds 5⟩, detached := [busy.requestStop] }, none⟩ := by
  have hdeadline : deadline? 0 (.ofSeconds 5) = some (5 * Duration.second) := rfl
  have hrequest : ({ session := some ⟨busy, .ofSeconds 5⟩ } : Engine Unit).requestStop? 0 =
    some { session := some ⟨busy.requestStop, .ofSeconds 5⟩ } := rfl
  have hover : 5 * Duration.second ≤ 5 * Duration.second := Nat.le_refl _
  have hstop : Run Worker.steady ⟨{ session := some ⟨busy, .ofSeconds 5⟩ }, none⟩
      [.requestStop, .finishStop true] ⟨{ detached := [busy.requestStop] }, none⟩ :=
    .cons (.requestStop rfl hdeadline hrequest) <| .cons (.finishStop (.inr hover)) <| .nil _
  exact ((run_firstCycle []).append hstop).append (run_firstCycle [busy.requestStop])

/-- In the default configuration two workers of one engine may be in a cycle at the same time. -/
theorem restart_overlaps :
    ∃ x, Run Worker.steady {} restart x ∧ x.engine.workers.countP Worker.isAlive = 2 ∧
      x.engine.workers.countP (fun w => w.phase = .cycling) = 2 :=
  ⟨_, run_restart, rfl, rfl⟩

/-- Before the stop one worker is in a cycle; after the restart the other one, which was let go of,
delivers one batch at most. -/
theorem threads_bounded_restart :
    (∃ x, Run Worker.steady {} firstCycle x ∧
      x.engine.workers.countP (fun w => w.phase = .cycling) ≤ 1) ∧
    ∃ x w, Run Worker.steady {} restart x ∧ x.engine.detached = [w] ∧ w.isAlive = true ∧
      x.engine.workers.countP Worker.isAlive ≤ 1 + 1 ∧ w.running = false ∧
      ∀ later v, Worker.Run Worker.steady w later v → (Worker.delivered later).length ≤ 1 := by
  refine ⟨⟨_, run_firstCycle [], ?_⟩, _, _, run_restart, rfl, rfl, ?_⟩
  · obtain ⟨-, -, -, -, -, hone⟩ := threads_bounded (run_firstCycle [])
    exact (hone rfl).2
  · obtain ⟨-, hlive, -, hstrays, -, -⟩ := threads_bounded run_restart
    obtain ⟨hflag, -, hlast⟩ := hstrays busy.requestStop List.mem_cons_self
    exact ⟨hlive, hflag, hlast⟩

end Controlled

end HostGauge
