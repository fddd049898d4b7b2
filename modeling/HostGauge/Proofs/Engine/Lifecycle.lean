import HostGauge.Proofs.Engine.Threads

/-!
The life of an engine as its callers see it: every call with its answer, between the steps of the
workers. The history of a run tells which session is open and who holds a collector: a session is
open from its start until a stop is over, whatever its worker has come to, and what is handed out is
the collector of the last session that a stop joined, unless it was handed out before.
-/
namespace HostGauge

namespace EngineConfig

theorem validate_of_lt (config : EngineConfig)
    (h : config.pollInterval.nanos < Duration.second) :
    config.validate = .error (.shortInterval config.pollInterval) := if_pos h

theorem validate_of_le (config : EngineConfig)
    (h : Duration.second ≤ config.pollInterval.nanos) : config.validate = .ok () :=
  if_neg (Nat.not_lt.mpr h)

end EngineConfig

namespace Engine

variable {σ : Type}

/-- What a start answers, and the engine afterwards, which is the same where the start fails. -/
def startCall (e : Engine σ) (config : EngineConfig) (collector : σ)
    (spawned : Except FileFault Unit) : Except EngineError Unit × Engine σ :=
  match e.start config collector spawned with
  | .error error => (.error error, e)
  | .ok e' => (.ok (), e')

/-- What a stop finds once it has waited for the worker. -/
inductive Ending where
  | joined
  | panicked
  /-- The worker is alive, and is left to itself. -/
  | detached
  deriving DecidableEq, Repr

def ending (e : Engine σ) : Ending :=
  match e.session with
  | none => .detached
  | some s =>
    match s.worker.phase with
    | .ended => .joined
    | .panicked => .panicked
    | _ => .detached

end Engine

namespace Lifecycle

open Engine (Ending)

variable {σ : Type}

/-- A call with its answer, a part of a stop, or a step of a worker. -/
inductive Event (σ : Type) where
  /-- With what the system answers where it is asked for a thread. -/
  | start (config : EngineConfig) (collector : σ) (spawned : Except FileFault Unit)
      (answer : Except EngineError Unit)
  | isRunning (answer : Bool)
  | take (answer : Option σ)
  /-- A stop that finds no session. -/
  | idleStop
  | requestStop
  | finishStop (ending : Ending)
  /-- A stop that fails because its grace period ends beyond the clock. -/
  | abandonStop
  | session (event : Worker.Event)
  | detached (event : Worker.Event)

/-- Every call can be made unless a stop is going on. Stops and workers take the steps that they
take in `Controlled.Step`. -/
inductive Step (src : Source σ) : Controlled σ → Event σ → Controlled σ → Prop where
  | start (e : Engine σ) (config : EngineConfig) (collector : σ)
      (spawned : Except FileFault Unit) :
      Step src ⟨e, none⟩ (.start config collector spawned (e.startCall config collector spawned).1)
        ⟨(e.startCall config collector spawned).2, none⟩
  | isRunning (e : Engine σ) : Step src ⟨e, none⟩ (.isRunning e.isRunning) ⟨e, none⟩
  | take (e : Engine σ) :
      Step src ⟨e, none⟩ (.take e.takeCollector.1) ⟨e.takeCollector.2, none⟩
  | idleStop {e e' : Engine σ} {now : Moment} (hsession : e.session = none)
      (h : e.requestStop? now = some e') : Step src ⟨e, none⟩ .idleStop ⟨e'.finishStop.1, none⟩
  | requestStop {x y : Controlled σ} (h : Controlled.Step src x .requestStop y) :
      Step src x .requestStop y
  | finishStop {x y : Controlled σ} {letGo : Bool}
      (h : Controlled.Step src x (.finishStop letGo) y) :
      Step src x (.finishStop x.engine.ending) y
  | abandonStop {x y : Controlled σ} {letGo : Bool}
      (h : Controlled.Step src x (.abandonStop letGo) y) : Step src x .abandonStop y
  | session {x y : Controlled σ} {event : Worker.Event} {ended : Bool}
      (h : Controlled.Step src x (.session event ended) y) : Step src x (.session event) y
  | detached {x y : Controlled σ} {event : Worker.Event} {ended : Bool}
      (h : Controlled.Step src x (.detached event ended) y) : Step src x (.detached event) y

abbrev Run (src : Source σ) : Controlled σ → List (Event σ) → Controlled σ → Prop :=
  Trace (Step src)

/-! ### What a history tells -/

/-- The session is over. -/
def Event.isOver : Event σ → Bool
  | finishStop _ | abandonStop => true
  | _ => false

/-- What happens to the worker of the session. -/
def Event.worker? : Event σ → Option Worker.Event
  | session event => some event
  | requestStop => some .requestStop
  | _ => none

/-- The events of the session's worker. -/
def workerEvents (events : List (Event σ)) : List Worker.Event := events.filterMap Event.worker?

/-- The history ends within a session that was started like this, and goes on since then. -/
structure Opened (history : List (Event σ)) (config : EngineConfig) (collector : σ)
    (since : List (Event σ)) : Prop where
  started : ∃ before spawned, history = before ++ .start config collector spawned (.ok ()) :: since
  going : ∀ event ∈ since, event.isOver = false
  last : ∀ config collector spawned, .start config collector spawned (.ok ()) ∉ since

/-- A session was started and is not over. -/
def IsOpen (history : List (Event σ)) : Prop :=
  ∃ config collector since, Opened history config collector since

/-- The worker of a session came to this from its start on. -/
def Comes (src : Source σ) (config : EngineConfig) (collector : σ) (since : List (Event σ))
    (w : Worker σ) : Prop :=
  Worker.Run src (.ofCollector config.pollInterval config.computer collector)
    (workerEvents since) w

/-- A stop joined a session, and nothing was taken since. -/
def Unclaimed (history : List (Event σ)) : Prop :=
  ∃ earlier later, history = earlier ++ .finishStop .joined :: later ∧ ∀ a, .take a ∉ later

/-- The last session that a stop joined ended with this collector, and nothing was taken since. -/
def Returns (src : Source σ) (history : List (Event σ)) (collector : σ) : Prop :=
  ∃ earlier later config given since w,
    history = earlier ++ .finishStop .joined :: later ∧ Opened earlier config given since ∧
      Comes src config given since w ∧ w.phase = .ended ∧ collector = w.collector ∧
      .finishStop .joined ∉ later ∧ ∀ a, .take a ∉ later

variable {src : Source σ} {history : List (Event σ)} {event : Event σ} {config : EngineConfig}
  {collector : σ} {since : List (Event σ)} {x y : Controlled σ}

theorem workerEvents_concat (since : List (Event σ)) (event : Event σ) :
    workerEvents (since ++ [event]) = workerEvents since ++ event.worker?.toList := by
  rw [workerEvents, List.filterMap_append]
  cases event <;> rfl

theorem Opened.concat (h : Opened history config collector since) (hover : event.isOver = false)
    (hstart : ∀ config collector spawned, event ≠ .start config collector spawned (.ok ())) :
    Opened (history ++ [event]) config collector (since ++ [event]) := by
  obtain ⟨before, spawned, rfl⟩ := h.started
  refine ⟨⟨before, spawned, by simp⟩, ?_, ?_⟩
  · rw [List.forall_mem_append, List.forall_mem_singleton]
    exact ⟨h.going, hover⟩
  · intro config collector spawned
    rw [List.mem_append, List.mem_singleton, not_or]
    exact ⟨h.last config collector spawned, Ne.symm (hstart config collector spawned)⟩

theorem opened_start (history : List (Event σ)) (config : EngineConfig) (collector : σ)
    (spawned : Except FileFault Unit) :
    Opened (history ++ [.start config collector spawned (.ok ())]) config collector [] :=
  ⟨⟨history, spawned, rfl⟩, List.forall_mem_nil _, fun _ _ _ => List.not_mem_nil⟩

/-- Of two places in a history, one is before the other, or they are the same. -/
theorem compare_places {a b : Event σ} {xs ys zs ws : List (Event σ)}
    (h : xs ++ a :: ys = zs ++ b :: ws) : (a = b ∧ ys = ws) ∨ b ∈ ys ∨ a ∈ ws := by
  rcases List.append_eq_append_iff.mp h with ⟨part, -, hpart⟩ | ⟨part, -, hpart⟩
  · cases part with
    | nil => exact .inl (List.cons.inj hpart)
    | cons first part =>
        rw [List.cons_append, List.cons.injEq] at hpart
        rw [hpart.2]
        exact .inr (.inl (List.mem_append_right _ List.mem_cons_self))
  · cases part with
    | nil => exact .inl ((List.cons.inj hpart).imp Eq.symm Eq.symm)
    | cons first part =>
        rw [List.cons_append, List.cons.injEq] at hpart
        rw [hpart.2]
        exact .inr (.inr (List.mem_append_right _ List.mem_cons_self))

theorem Opened.config_eq {config' : EngineConfig} {collector' : σ} {since' : List (Event σ)}
    (h : Opened history config collector since) (h' : Opened history config' collector' since') :
    config = config' := by
  obtain ⟨before, spawned, hsplit⟩ := h.started
  obtain ⟨before', spawned', hsplit'⟩ := h'.started
  rcases compare_places (hsplit.symm.trans hsplit') with ⟨hsame, -⟩ | hlater | hlater
  · cases hsame
    rfl
  · exact absurd hlater (h.last _ _ _)
  · exact absurd hlater (h'.last _ _ _)

/-- A place in a history is its last event, or lies in what was there before this. -/
theorem split_concat {a : Event σ} {before after : List (Event σ)}
    (h : history ++ [event] = before ++ a :: after) :
    event = a ∨ ∃ rest, after = rest ++ [event] ∧ history = before ++ a :: rest := by
  rcases List.eq_nil_or_concat after with rfl | ⟨rest, last, rfl⟩
  · exact .inl (List.head_eq_of_cons_eq (List.append_inj' h rfl).2)
  · rw [List.concat_eq_append] at h ⊢
    rw [← List.cons_append, ← List.append_assoc] at h
    obtain ⟨hhistory, hlast⟩ := List.append_inj' h rfl
    rw [hlast]
    exact .inr ⟨rest, rfl, hhistory⟩

/-- An open session was started just now, or was open before and is not over. -/
theorem IsOpen.of_concat (h : IsOpen (history ++ [event])) :
    (∃ config collector spawned, event = .start config collector spawned (.ok ())) ∨
      IsOpen history ∧ event.isOver = false := by
  obtain ⟨config, collector, since, ⟨before, spawned, hsplit⟩, going, hlast⟩ := h
  rcases split_concat hsplit with hstart | ⟨rest, rfl, hhistory⟩
  · exact .inl ⟨config, collector, spawned, hstart⟩
  · rw [List.forall_mem_append, List.forall_mem_singleton] at going
    refine .inr ⟨⟨config, collector, rest, ⟨before, spawned, hhistory⟩, going.1, ?_⟩, going.2⟩
    intro config collector spawned hstart
    exact hlast config collector spawned (List.mem_append_left _ hstart)

theorem Unclaimed.of_concat (h : Unclaimed (history ++ [event])) :
    event = .finishStop .joined ∨ Unclaimed history ∧ ∀ a, event ≠ .take a := by
  obtain ⟨earlier, later, hsplit, htake⟩ := h
  rcases split_concat hsplit with hjoined | ⟨rest, rfl, hhistory⟩
  · exact .inl hjoined
  · refine .inr ⟨⟨earlier, rest, hhistory, fun a ha => ?_⟩, ?_⟩
    · exact htake a (List.mem_append_left _ ha)
    · rintro a rfl
      exact htake a List.mem_concat_self

theorem Returns.concat {k : σ} (h : Returns src history k)
    (hjoined : event ≠ .finishStop .joined) (htake : ∀ a, event ≠ .take a) :
    Returns src (history ++ [event]) k := by
  obtain ⟨earlier, later, config, given, since, w, rfl, hopened, hcomes, hended, hk, hnone,
    huntaken⟩ := h
  refine ⟨earlier, later ++ [event], config, given, since, w, by simp, hopened, hcomes, hended, hk,
    ?_, ?_⟩
  · rw [List.mem_append, List.mem_singleton, not_or]
    exact ⟨hnone, Ne.symm hjoined⟩
  · intro a
    rw [List.mem_append, List.mem_singleton, not_or]
    exact ⟨huntaken a, Ne.symm (htake a)⟩

/-! ### What a step does to the session and to the collector in custody -/

/-- The event concerns neither the session nor the collector in custody. -/
inductive Bystander : Event σ → Prop where
  | refused (config : EngineConfig) (collector : σ) (spawned : Except FileFault Unit)
      (error : EngineError) : Bystander (.start config collector spawned (.error error))
  | isRunning (answer : Bool) : Bystander (.isRunning answer)
  | idleStop : Bystander .idleStop
  | detached (event : Worker.Event) : Bystander (.detached event)

/-- The session is over, and its collector is lost. -/
inductive Loses : Event σ → Prop where
  | panicked : Loses (.finishStop .panicked)
  | detached : Loses (.finishStop .detached)
  | abandoned : Loses .abandonStop

inductive Moves (src : Source σ) : Option (Session σ) → Option σ → Event σ → Option (Session σ) →
    Option σ → Prop where
  | started (config : EngineConfig) (collector : σ) (spawned : Except FileFault Unit)
      (held : Option σ) :
      Moves src none held (.start config collector spawned (.ok ()))
        (some ⟨.ofCollector config.pollInterval config.computer collector, config.shutdownGrace⟩)
        held
  | unmoved {s : Option (Session σ)} {held : Option σ} {event : Event σ} (h : Bystander event) :
      Moves src s held event s held
  | worked {s : Session σ} {held : Option σ} {w : Worker σ} {event : Event σ}
      {step : Worker.Event} (hevent : event.worker? = some step)
      (h : Worker.Step src s.worker step w) :
      Moves src (some s) held event (some { s with worker := w }) held
  | taken (s : Option (Session σ)) (held : Option σ) : Moves src s held (.take held) s none
  | joined {s : Session σ} (h : s.worker.phase = .ended) (held : Option σ) :
      Moves src (some s) held (.finishStop .joined) none (some s.worker.collector)
  | lost {s : Option (Session σ)} {held : Option σ} {event : Event σ} (h : Loses event) :
      Moves src s held event none held

/-- The four ways of a start. -/
theorem startCall_cases (e : Engine σ) (config : EngineConfig) (collector : σ)
    (spawned : Except FileFault Unit) :
    (config.pollInterval.nanos < Duration.second ∧
      e.startCall config collector spawned = (.error (.shortInterval config.pollInterval), e)) ∨
    (Duration.second ≤ config.pollInterval.nanos ∧ e.session ≠ none ∧
      e.startCall config collector spawned = (.error .alreadyStarted, e)) ∨
    (Duration.second ≤ config.pollInterval.nanos ∧ e.session = none ∧
      ∃ cause, spawned = .error cause ∧
        e.startCall config collector spawned = (.error (.notSpawned cause), e)) ∨
    (Duration.second ≤ config.pollInterval.nanos ∧ e.session = none ∧ spawned = .ok () ∧
      e.startCall config collector spawned = (.ok (), { e with
        session := some ⟨.ofCollector config.pollInterval config.computer collector,
          config.shutdownGrace⟩ })) := by
  rcases Nat.lt_or_ge config.pollInterval.nanos Duration.second with hshort | hlong
  · exact .inl ⟨hshort, by simp only [Engine.startCall, Engine.start, config.validate_of_lt hshort]⟩
  · have hvalid := config.validate_of_le hlong
    cases hsession : e.session with
    | some s =>
        refine .inr (.inl ⟨hlong, nofun, ?_⟩)
        simp only [Engine.startCall, Engine.start, hvalid, hsession]
    | none =>
        cases spawned with
        | error cause =>
            refine .inr (.inr (.inl ⟨hlong, rfl, cause, rfl, ?_⟩))
            simp only [Engine.startCall, Engine.start, hvalid, hsession]
        | ok _ =>
            refine .inr (.inr (.inr ⟨hlong, rfl, rfl, ?_⟩))
            simp only [Engine.startCall, Engine.start, hvalid, hsession]

theorem start_moves (e : Engine σ) (config : EngineConfig) (collector : σ)
    (spawned : Except FileFault Unit) :
    Moves src e.session e.held
      (.start config collector spawned (e.startCall config collector spawned).1)
      (e.startCall config collector spawned).2.session
      (e.startCall config collector spawned).2.held := by
  rcases startCall_cases e config collector spawned with
    ⟨-, hcall⟩ | ⟨-, -, hcall⟩ | ⟨-, -, cause, -, hcall⟩ | ⟨-, hsession, -, hcall⟩
  · rw [hcall]
    exact .unmoved (.refused _ _ _ _)
  · rw [hcall]
    exact .unmoved (.refused _ _ _ _)
  · rw [hcall]
    exact .unmoved (.refused _ _ _ _)
  · rw [hcall, hsession]
    exact .started _ _ _ _

theorem finishStop_moves (e : Engine σ) :
    Moves src e.session e.held (.finishStop e.ending) e.finishStop.1.session
      e.finishStop.1.held := by
  unfold Engine.ending Engine.finishStop
  cases hsession : e.session with
  | none =>
      simp only [hsession]
      exact .lost .detached
  | some s =>
      dsimp only
      cases hphase : s.worker.phase with
      | ended => exact .joined hphase _
      | panicked => exact .lost .panicked
      | _ => exact .lost .detached

theorem Step.moves (h : Step src x event y) :
    Moves src x.engine.session x.engine.held event y.engine.session y.engine.held := by
  cases h with
  | start e config collector spawned => exact start_moves e config collector spawned
  | isRunning e => exact .unmoved (.isRunning _)
  | take e => exact .taken _ _
  | @idleStop e e' now hsession h =>
      simp only [Engine.requestStop?, hsession] at h
      cases h
      have hsame : e.finishStop.1 = e := by simp only [Engine.finishStop, hsession]
      simp only [hsame]
      exact .unmoved .idleStop
  | requestStop h =>
      cases h with
      | requestStop hsession hdeadline h =>
          simp only [Engine.requestStop?, hsession, hdeadline, Option.map_some] at h
          cases h
          simp only [Engine.mapWorker, hsession, Option.map_some]
          exact .worked rfl .requestStop
  | finishStop h =>
      cases h with
      | finishStop _ => exact finishStop_moves _
  | abandonStop h =>
      cases h with
      | @abandonStop e now h =>
          have hlost : e.abandonStop.session = none ∧ e.abandonStop.held = e.held := by
            unfold Engine.abandonStop
            cases hsession : e.session with
            | none => exact ⟨hsession, rfl⟩
            | some s => exact ⟨rfl, rfl⟩
          simp only [hlost.1, hlost.2]
          exact .lost .abandoned
  | session h =>
      cases h with
      | session hsession h _ =>
          simp only [hsession]
          exact .worked rfl h
  | detached h =>
      cases h with
      | detached _ _ _ => exact .unmoved (.detached _)

/-! ### The accounts of a history -/

/-- The session is the one that the history tells of, and its worker came to what it is. -/
structure SessionAccount (src : Source σ) (history : List (Event σ)) (s : Option (Session σ)) :
    Prop where
  idle : s = none → ¬ IsOpen history
  going : ∀ t ∈ s, ∃ config collector since, Opened history config collector since ∧
    Comes src config collector since t.worker ∧ t.grace = config.shutdownGrace

/-- A collector is held where one was left and not taken since. -/
structure CustodyAccount (src : Source σ) (history : List (Event σ)) (held : Option σ) : Prop where
  unheld : held = none → ¬ Unclaimed history
  holds : ∀ k ∈ held, Returns src history k

theorem SessionAccount.over (history : List (Event σ)) (hover : event.isOver = true) :
    SessionAccount src (history ++ [event]) none where
  idle := by
    rintro - hopen
    rcases hopen.of_concat with ⟨config, collector, spawned, rfl⟩ | ⟨-, hgoing⟩
    · cases hover
    · rw [hover] at hgoing
      cases hgoing
  going := fun t ht => absurd ht (Option.not_mem_none t)

theorem SessionAccount.started (src : Source σ) (history : List (Event σ)) (config : EngineConfig)
    (collector : σ) (spawned : Except FileFault Unit) :
    SessionAccount src (history ++ [.start config collector spawned (.ok ())])
      (some ⟨.ofCollector config.pollInterval config.computer collector,
        config.shutdownGrace⟩) where
  idle := nofun
  going := by
    intro t ht
    cases ht
    exact ⟨config, collector, [], opened_start history config collector spawned, .nil _, rfl⟩

theorem SessionAccount.worked {s : Session σ} {w : Worker σ} {step : Worker.Event}
    (h : SessionAccount src history (some s)) (hevent : event.worker? = some step)
    (hstep : Worker.Step src s.worker step w) :
    SessionAccount src (history ++ [event]) (some { s with worker := w }) where
  idle := nofun
  going := by
    intro t ht
    cases ht
    obtain ⟨config, collector, since, hopened, hcomes, hgrace⟩ := h.going s rfl
    have hquiet : event.isOver = false ∧
        ∀ config collector spawned, event ≠ .start config collector spawned (.ok ()) := by
      cases event with
      | session | requestStop => exact ⟨rfl, nofun⟩
      | _ => cases hevent
    refine ⟨config, collector, since ++ [event], hopened.concat hquiet.1 hquiet.2, ?_, hgrace⟩
    rw [Comes, workerEvents_concat, hevent]
    exact hcomes.append (.cons hstep (.nil w))

theorem SessionAccount.unmoved {s : Option (Session σ)} (h : SessionAccount src history s)
    (hstart : ∀ config collector spawned, event ≠ .start config collector spawned (.ok ()))
    (hover : event.isOver = false) (hworker : event.worker? = none) :
    SessionAccount src (history ++ [event]) s where
  idle := by
    intro hs hopen
    rcases hopen.of_concat with ⟨config, collector, spawned, hstart'⟩ | ⟨hbefore, -⟩
    · exact hstart config collector spawned hstart'
    · exact h.idle hs hbefore
  going := by
    intro t ht
    obtain ⟨config, collector, since, hopened, hcomes, hgrace⟩ := h.going t ht
    refine ⟨config, collector, since ++ [event], hopened.concat hover hstart, ?_, hgrace⟩
    rw [Comes, workerEvents_concat, hworker, Option.toList_none, List.append_nil]
    exact hcomes

/-- Only a stop that joins and a call that takes matter to the custody. -/
theorem CustodyAccount.concat {held : Option σ} (h : CustodyAccount src history held)
    (hjoined : event ≠ .finishStop .joined) (htake : ∀ a, event ≠ .take a) :
    CustodyAccount src (history ++ [event]) held where
  unheld := by
    intro hheld hunclaimed
    rcases hunclaimed.of_concat with hjoined' | ⟨hbefore, -⟩
    · exact hjoined hjoined'
    · exact h.unheld hheld hbefore
  holds := fun k hk => (h.holds k hk).concat hjoined htake

theorem CustodyAccount.taken (history : List (Event σ)) (a : Option σ) :
    CustodyAccount src (history ++ [.take a]) none where
  unheld := by
    rintro - hunclaimed
    rcases hunclaimed.of_concat with hjoined | ⟨-, htake⟩
    · cases hjoined
    · exact htake a rfl
  holds := fun k hk => absurd hk (Option.not_mem_none k)

theorem CustodyAccount.joined {s : Session σ} (h : SessionAccount src history (some s))
    (hended : s.worker.phase = .ended) :
    CustodyAccount src (history ++ [.finishStop .joined]) (some s.worker.collector) where
  unheld := nofun
  holds := by
    intro k hk
    cases hk
    obtain ⟨config, collector, since, hopened, hcomes, -⟩ := h.going s rfl
    exact ⟨history, [], config, collector, since, s.worker, rfl, hopened, hcomes, hended, rfl,
      List.not_mem_nil, fun _ => List.not_mem_nil⟩

theorem Moves.accounts {s s' : Option (Session σ)} {held held' : Option σ}
    (h : Moves src s held event s' held') (hs : SessionAccount src history s)
    (hheld : CustodyAccount src history held) :
    SessionAccount src (history ++ [event]) s' ∧ CustodyAccount src (history ++ [event]) held' := by
  cases h with
  | started config collector spawned =>
      exact ⟨.started src history config collector spawned, hheld.concat nofun nofun⟩
  | unmoved hevent =>
      cases hevent <;> exact ⟨hs.unmoved nofun rfl rfl, hheld.concat nofun nofun⟩
  | worked hevent hstep =>
      refine ⟨hs.worked hevent hstep, hheld.concat ?_ ?_⟩
      · rintro rfl
        cases hevent
      · rintro a rfl
        cases hevent
  | taken => exact ⟨hs.unmoved nofun rfl rfl, .taken history held⟩
  | joined hended => exact ⟨.over history rfl, .joined hs hended⟩
  | lost hevent => cases hevent <;> exact ⟨.over history rfl, hheld.concat nofun nofun⟩

theorem sessionAccount_nil (src : Source σ) : SessionAccount src [] none where
  idle := by
    rintro - ⟨config, collector, since, ⟨before, spawned, hsplit⟩, -⟩
    exact List.append_ne_nil_of_right_ne_nil before (List.cons_ne_nil _ since) hsplit.symm
  going := fun t ht => absurd ht (Option.not_mem_none t)

theorem custodyAccount_nil (src : Source σ) : CustodyAccount src [] none where
  unheld := by
    rintro - ⟨earlier, later, hsplit, -⟩
    exact List.append_ne_nil_of_right_ne_nil earlier (List.cons_ne_nil _ later) hsplit.symm
  holds := fun k hk => absurd hk (Option.not_mem_none k)

theorem accounts (h : Run src {} history x) :
    SessionAccount src history x.engine.session ∧ CustodyAccount src history x.engine.held := by
  refine h.history (P := fun history x => SessionAccount src history x.engine.session ∧
    CustodyAccount src history x.engine.held) ⟨sessionAccount_nil src, custodyAccount_nil src⟩ ?_
  intro history x event y ⟨hs, hheld⟩ hstep
  exact hstep.moves.accounts hs hheld

theorem session_eq_none_iff (h : Run src {} history x) :
    x.engine.session = none ↔ ¬ IsOpen history := by
  obtain ⟨hs, -⟩ := accounts h
  constructor
  · exact hs.idle
  · intro hclosed
    by_contra hsome
    obtain ⟨s, hsession⟩ := Option.ne_none_iff_exists'.mp hsome
    obtain ⟨config, collector, since, hopened, -, -⟩ := hs.going s hsession
    exact hclosed ⟨config, collector, since, hopened⟩

/-! ### The answers of the calls -/

theorem Returns.unclaimed {k : σ} (h : Returns src history k) : Unclaimed history := by
  obtain ⟨earlier, later, config, given, since, w, hsplit, -, -, -, -, -, htake⟩ := h
  exact ⟨earlier, later, hsplit, htake⟩

theorem Returns.joined_between {k other : σ} {earlier between : List (Event σ)}
    (h : Returns src history k) (hsplit : history = earlier ++ .take (some other) :: between) :
    .finishStop .joined ∈ between := by
  obtain ⟨before, later, config, given, since, w, hjoin, -, -, -, -, -, htake⟩ := h
  rcases compare_places (hsplit.symm.trans hjoin) with ⟨hsame, -⟩ | hbetween | hlater
  · cases hsame
  · exact hbetween
  · exact absurd hlater (htake _)

/-- What a start answers by the session that is there. -/
theorem Step.start_answer {spawned : Except FileFault Unit} {answer : Except EngineError Unit}
    (h : Step src x (.start config collector spawned answer) y) :
    (answer = .error (.shortInterval config.pollInterval) ↔
      config.pollInterval.nanos < Duration.second) ∧
    (answer = .error .alreadyStarted ↔
      Duration.second ≤ config.pollInterval.nanos ∧ x.engine.session ≠ none) ∧
    (∀ cause, answer = .error (.notSpawned cause) ↔
      Duration.second ≤ config.pollInterval.nanos ∧ x.engine.session = none ∧
        spawned = .error cause) ∧
    (answer = .ok () ↔ Duration.second ≤ config.pollInterval.nanos ∧ x.engine.session = none ∧
      spawned = .ok ()) ∧
    (answer ≠ .ok () → y = x) := by
  cases h with
  | start e _ _ _ =>
      rcases startCall_cases e config collector spawned with
        ⟨hshort, hcall⟩ | ⟨hlong, hsession, hcall⟩ | ⟨hlong, hsession, cause, rfl, hcall⟩ |
          ⟨hlong, hsession, rfl, hcall⟩
      · simp [hcall, hshort, Nat.not_le.mpr hshort]
      · simp [hcall, hlong, hsession, Nat.not_lt.mpr hlong]
      · simp [hcall, hlong, hsession, Nat.not_lt.mpr hlong]
      · simp [hcall, hlong, hsession, Nat.not_lt.mpr hlong]

theorem Step.of_session_eq_none (h : Step src x event y) (hsession : x.engine.session = none) :
    event ≠ .requestStop ∧ event ≠ .abandonStop := by
  cases h with
  | requestStop h =>
      cases h with
      | requestStop hsome _ _ =>
          rw [hsession] at hsome
          cases hsome
  | abandonStop h =>
      cases h with
      | @abandonStop e now hfails =>
          have hnone : e.session = none := hsession
          rw [Engine.requestStop?, hnone] at hfails
          cases hfails
  | _ =>
      constructor <;>
      · intro hother
        cases hother

theorem Step.held_of_loses (h : Step src x event y) (hevent : Loses event) :
    y.engine.held = x.engine.held := by
  have hmoves := h.moves
  generalize x.engine.session = s, x.engine.held = held, y.engine.session = s',
    y.engine.held = held' at hmoves ⊢
  cases hmoves with
  | taken | joined => cases hevent
  | _ => rfl

/-- After any calls and under any scheduling, from a new engine on: a start is refused exactly where
the interval is below a second, else exactly where a session is open, whether or not its worker is
alive, and else succeeds unless the system has no thread for it, whose reason it then tells. A start
that fails leaves everything as it was, as does a stop where no session is open.
A call that takes is given the collector of the last session that a stop joined, as the last step of
its worker left it, if it was not taken before; so between two that are given a collector a stop
joins a session. A session that ends otherwise leaves the custody as it was. -/
theorem answered_by_history (h : Run src {} history x) (hstep : Step src x event y) :
    (∀ config collector spawned answer, event = .start config collector spawned answer →
      (answer = .error (.shortInterval config.pollInterval) ↔
        config.pollInterval.nanos < Duration.second) ∧
      (answer = .error .alreadyStarted ↔
        Duration.second ≤ config.pollInterval.nanos ∧ IsOpen history) ∧
      (∀ cause, answer = .error (.notSpawned cause) ↔
        Duration.second ≤ config.pollInterval.nanos ∧ ¬ IsOpen history ∧ spawned = .error cause) ∧
      (answer = .ok () ↔ Duration.second ≤ config.pollInterval.nanos ∧ ¬ IsOpen history ∧
        spawned = .ok ()) ∧
      (answer ≠ .ok () → y = x)) ∧
    (¬ IsOpen history → event ≠ .requestStop ∧ event ≠ .abandonStop ∧
      ∀ now, x.engine.requestStop? now = some x.engine ∧ x.engine.finishStop = (x.engine, [])) ∧
    (∀ answer, event = .isRunning answer → y = x) ∧
    (∀ answer, event = .take answer →
      (∀ collector, answer = some collector → Returns src history collector ∧
        ∀ earlier other between, history = earlier ++ .take (some other) :: between →
          .finishStop .joined ∈ between) ∧
      (answer = none ↔ ¬ Unclaimed history) ∧ y.engine.held = none) ∧
    (Loses event → y.engine.held = x.engine.held) := by
  obtain ⟨-, hheld⟩ := accounts h
  have hsession := session_eq_none_iff h
  refine ⟨?_, ?_, ?_, ?_, hstep.held_of_loses⟩
  · rintro config collector spawned answer rfl
    have hanswer := hstep.start_answer
    rwa [ne_eq, hsession, not_not] at hanswer
  · intro hclosed
    have hnone := hsession.mpr hclosed
    obtain ⟨hrequest, habandon⟩ := hstep.of_session_eq_none hnone
    refine ⟨hrequest, habandon, fun now => ⟨?_, ?_⟩⟩
    · simp only [Engine.requestStop?, hnone]
    · simp only [Engine.finishStop, hnone]
  · rintro answer rfl
    cases hstep
    rfl
  · rintro answer rfl
    cases hstep with
    | take e =>
        refine ⟨fun k hk => ?_, ⟨hheld.unheld, fun hclaimed => ?_⟩, rfl⟩
        · have hreturns := hheld.holds k hk
          exact ⟨hreturns, fun _ _ _ hsplit => hreturns.joined_between hsplit⟩
        · by_contra hsome
          obtain ⟨k, hk⟩ := Option.ne_none_iff_exists'.mp hsome
          exact hclaimed (hheld.holds k hk).unclaimed

/-- A host without identifiers, whose collector counts its baselines. -/
def unidentified : Source ℕ where
  baseline n := (.ok ⟨1.0, 1.0⟩, n + 1, [])
  ids n := (.error (.unavailable .agentIds), n)
  startSample := id
  memory n := (.ok ⟨1, 2⟩, n)
  cpuCount n := (.ok 2, n)
  cpuTimes n := (.ok ⟨1.0, 1.0⟩, n)
  filesystems n := (.ok [], n)
  traffic n := (.ok [], n)
  endSample := id
  clock n := (⟨0, ⟨0, 0⟩⟩, n)

/-- The system has no more threads. -/
def exhausted : FileFault := .other "Resource temporarily unavailable (os error 11)"

/-- A worker ends by itself, and its session stays open until it is stopped; a start for which there
is no thread goes before the next session, whose worker panics. -/
def twoSessions : List (Event ℕ) :=
  [.start {} 7 (.ok ()) (.ok ()), .session .start, .start {} 0 (.ok ()) (.error .alreadyStarted),
    .requestStop, .finishStop .joined,
    .start {} 1 (.error exhausted) (.error (.notSpawned exhausted)),
    .start {} 1 (.ok ()) (.ok ()), .session .panic, .requestStop, .finishStop .panicked]

theorem run_twoSessions : Run unidentified {} twoSessions ⟨{ held := some 8 }, none⟩ := by
  have hdeadline : deadline? 0 (.ofSeconds 5) = some (5 * Duration.second) := rfl
  refine .cons (.start {} {} 7 (.ok ())) <| .cons (.session (.session rfl (.start rfl) nofun)) <|
    .cons (.start _ {} 0 (.ok ())) <| .cons (.requestStop (.requestStop rfl hdeadline rfl)) <|
    .cons (.finishStop (.finishStop (.inl rfl : _ ∨ _ ≤ (0 : Moment)))) <|
    .cons (.start _ {} 1 (.error exhausted)) <| .cons (.start _ {} 1 (.ok ())) <|
    .cons (.session (.session rfl (.panic (.inl rfl)) nofun)) <|
    .cons (.requestStop (.requestStop rfl hdeadline rfl)) <|
    .cons (.finishStop (.finishStop (.inl rfl : _ ∨ _ ≤ (0 : Moment)))) <| .nil _

/-- What is taken after both sessions is the collector of the first one, with its one baseline. -/
theorem answered_by_history_joined :
    Run unidentified {} twoSessions ⟨{ held := some 8 }, none⟩ ∧
      Step unidentified ⟨{ held := some 8 }, none⟩ (.take (some 8)) ⟨{}, none⟩ ∧
      Returns unidentified twoSessions 8 := by
  have hstep : Step unidentified ⟨{ held := some 8 }, none⟩ (.take (some 8)) ⟨{}, none⟩ := .take _
  obtain ⟨-, -, -, htake, -⟩ := answered_by_history run_twoSessions hstep
  exact ⟨run_twoSessions, hstep, ((htake _ rfl).1 8 rfl).1⟩

end Lifecycle

end HostGauge
