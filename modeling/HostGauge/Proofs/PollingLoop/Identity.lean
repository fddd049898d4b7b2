import HostGauge.Proofs.PollingLoop.Isolation
import HostGauge.Proofs.PollingLoop.Journal

/-!
What a start makes of a loop. Only a start that succeeds to the end gives the loop a factory, and
with it the identity of all tuples; before the first such start a gather asks its source nothing,
after it every gather puts the same questions, whatever they are answered. The questions of a run
are read off its recorded source, which answers as the source does.
-/
namespace HostGauge

/-- The value of the tag that names a machine. -/
def AgentIds.tagged : AgentIds → Json
  | single id => .string ("m-" ++ id)
  | multiple ids => .array (ids.map fun id => .string ("m-" ++ id))

/-- A tuple that tells where it comes from: of its tags exactly one names the machine. -/
structure MetricTuple.Identifies (t : MetricTuple) (ids : AgentIds) (computer : Option String) :
    Prop where
  origin : t.origin = "vm.azm.ms"
  computer : t.computer = computer
  tags : ∃ members, t.tags = String.ofList (Json.compact (.object members)) ∧
    members.filter (·.1 = "vm.azm.ms/machineId") = [("vm.azm.ms/machineId", ids.tagged)]

theorem MetricFactory.tuple_identifies (ids : AgentIds) (computer : Option String)
    (subject name : String) (value : Float) (pairs : List (String × Json)) (time : UtcInstant) :
    ((MetricFactory.ofIds ids computer).tuple subject name value (Json.membersOf pairs)
      time).Identifies ids computer where
  origin := rfl
  computer := rfl
  tags := by
    refine ⟨_, rfl, ?_⟩
    rw [show "vm.azm.ms/machineId" = Tag.machineId from rfl,
      (Json.ascending_membersOf pairs).filter_insert]
    cases ids <;> rfl

namespace Source

variable {σ : Type}

/-- The questions of one gather, in their order. -/
def sampleQuestions : List Question :=
  [.startSample, .memory, .cpuCount, .cpuTimes, .filesystems, .traffic, .endSample]

theorem baseline_recorded (src : Source σ) (asked : List Question) (s : σ) :
    src.recorded.baseline (asked, s) =
      ((src.baseline s).1, (asked ++ [.baseline], (src.baseline s).2.1),
        (src.baseline s).2.2) := rfl

theorem ids_recorded (src : Source σ) (asked : List Question) (s : σ) :
    src.recorded.ids (asked, s) = ((src.ids s).1, (asked ++ [.ids], (src.ids s).2)) := rfl

theorem sample_recorded (src : Source σ) (asked : List Question) (s : σ) :
    src.recorded.sample (asked, s) =
      ((src.sample s).1, (asked ++ sampleQuestions, (src.sample s).2)) := by
  simp only [sample, ask, recorded, sampleQuestions, List.append_assoc, List.cons_append,
    List.nil_append]

end Source

namespace PollingLoop

variable {σ : Type}

/-! ### The questions of a run -/

/-- The questions that a call puts to the source. -/
def questions (p : PollingLoop) (src : Source σ) (s : σ) : Call → List Source.Question
  | .start =>
    match (src.baseline s).1 with
    | .error _ => [.baseline]
    | .ok _ => [.baseline, .ids]
  | .gather | .cycle _ =>
    match p.factory with
    | none => []
    | some _ => Source.sampleQuestions

theorem start_recorded (p : PollingLoop) (src : Source σ) (asked : List Source.Question) (s : σ) :
    p.start src.recorded (asked, s) =
      ((p.start src s).1, (p.start src s).2.1,
        (asked ++ p.questions src s .start, (p.start src s).2.2.1), (p.start src s).2.2.2) := by
  simp only [start, questions, Source.baseline_recorded]
  rcases src.baseline s with ⟨baseline, t, log⟩
  cases baseline with
  | error fault => rfl
  | ok reading =>
      simp only [Source.ids_recorded, List.append_assoc, List.singleton_append]
      rcases src.ids t with ⟨ids, u⟩
      cases ids <;> rfl

theorem gather_recorded (p : PollingLoop) (src : Source σ) (asked : List Source.Question) (s : σ) :
    p.gather src.recorded (asked, s) =
      ((p.gather src s).1, (p.gather src s).2.1,
        (asked ++ p.questions src s .gather, (p.gather src s).2.2.1), (p.gather src s).2.2.2) := by
  unfold gather questions
  cases p.factory with
  | none =>
      dsimp only
      rw [List.append_nil]
      rfl
  | some f => simp only [Source.sample_recorded]

theorem call_recorded (p : PollingLoop) (src : Source σ) (asked : List Source.Question) (s : σ)
    (c : Call) :
    p.call src.recorded (asked, s) c =
      ((p.call src s c).1, (asked ++ p.questions src s c, (p.call src s c).2.1),
        (p.call src s c).2.2) := by
  cases c with
  | start => simp only [call, start_recorded]
  | gather => simp only [call, gather_recorded]
  | cycle receive =>
      simp only [call, runCycle, gather_recorded]
      rfl

/-- The questions put to the source in a run. -/
def asked (p : PollingLoop) (src : Source σ) (s : σ) (calls : List Call) :
    List Source.Question :=
  (p.afterCalls src.recorded ([], s) calls).2.1.1

theorem afterCalls_concat (p : PollingLoop) (src : Source σ) (s : σ) (calls : List Call)
    (last : Call) :
    let q := p.afterCalls src s calls
    let r := q.1.call src q.2.1 last
    (p.afterCalls src s (calls ++ [last])).1 = r.1 ∧
      (p.afterCalls src s (calls ++ [last])).2.1 = r.2.1 := by
  induction calls generalizing p s with
  | nil => exact ⟨rfl, rfl⟩
  | cons c rest ih => exact ih _ _

theorem afterCalls_recorded (p : PollingLoop) (src : Source σ) (asked : List Source.Question)
    (s : σ) (calls : List Call) :
    let q := p.afterCalls src.recorded (asked, s) calls
    let r := p.afterCalls src s calls
    q.1 = r.1 ∧ q.2.1.2 = r.2.1 := by
  induction calls generalizing p asked s with
  | nil => exact ⟨rfl, rfl⟩
  | cons c rest ih =>
      simp only [afterCalls, call_recorded]
      exact ih _ _ _

/-- A call at the end of a run adds its questions. -/
theorem asked_concat (p : PollingLoop) (src : Source σ) (s : σ) (calls : List Call) (last : Call) :
    let q := p.afterCalls src s calls
    p.asked src s (calls ++ [last]) = p.asked src s calls ++ q.1.questions src q.2.1 last := by
  intro q
  have hlast := (afterCalls_concat p src.recorded ([], s) calls last).2
  obtain ⟨hloop, hsource⟩ := afterCalls_recorded p src [] s calls
  unfold asked
  rw [hlast]
  generalize p.afterCalls src.recorded ([], s) calls = recorded at hloop hsource ⊢
  obtain ⟨loop, ⟨before, source⟩, log⟩ := recorded
  dsimp only at hloop hsource
  rw [call_recorded, hloop, hsource]

/-! ### Starts that succeed -/

/-- The identifiers that a call resolves: those of a start that succeeds. -/
def resolvedBy (p : PollingLoop) (src : Source σ) (s : σ) : Call → List AgentIds
  | .start =>
    match (p.start src s).1 with
    | .ok () => (src.ids (src.baseline s).2.1).1.toOption.toList
    | .error _ => []
  | .gather | .cycle _ => []

/-- The identifiers that the starts of a run resolve, the last ones at the end. -/
def resolved (p : PollingLoop) (src : Source σ) (s : σ) : List Call → List AgentIds
  | [] => []
  | c :: rest =>
    p.resolvedBy src s c ++ (p.call src s c).1.resolved src (p.call src s c).2.1 rest

theorem start_answer (p : PollingLoop) (src : Source σ) (s : σ) :
    (p.start src s).1 = (src.baseline s).1.bind fun _ =>
      (src.ids (src.baseline s).2.1).1.map fun _ => () := by
  unfold start
  rcases src.baseline s with ⟨baseline, t, log⟩
  cases baseline with
  | error fault => rfl
  | ok reading =>
      dsimp only
      rcases src.ids t with ⟨ids, u⟩
      cases ids <;> rfl

theorem resolvedBy_start_eq_nil_iff (p : PollingLoop) (src : Source σ) (s : σ) :
    p.resolvedBy src s .start = [] ↔ (p.start src s).1 ≠ .ok () := by
  rw [resolvedBy, start_answer]
  cases (src.baseline s).1 with
  | error fault => simp [Except.bind]
  | ok reading =>
      cases (src.ids (src.baseline s).2.1).1 <;> simp [Except.bind, Except.map, Except.toOption]

/-- Nothing is resolved in a run exactly if none of its starts succeeds. -/
theorem resolved_eq_nil_iff (p : PollingLoop) (src : Source σ) (s : σ) (calls : List Call) :
    p.resolved src s calls = [] ↔ ∀ earlier later, calls = earlier ++ .start :: later →
      let q := p.afterCalls src s earlier
      (q.1.start src q.2.1).1 ≠ .ok () := by
  induction calls generalizing p s with
  | nil => simp [resolved]
  | cons c rest ih =>
      rw [resolved, List.append_eq_nil_iff, ih]
      constructor
      · rintro ⟨hfirst, hrest⟩ earlier later hsplit
        rcases List.cons_eq_append_iff.mp hsplit with ⟨rfl, h⟩ | ⟨earlier', rfl, h⟩
        · cases h
          exact (resolvedBy_start_eq_nil_iff p src s).mp hfirst
        · exact hrest earlier' later h
      · intro h
        refine ⟨?_, fun earlier later hsplit => ?_⟩
        · cases c with
          | start => exact (resolvedBy_start_eq_nil_iff p src s).mpr (h [] rest rfl)
          | gather | cycle => rfl
        · exact h (c :: earlier) later (by rw [hsplit, List.cons_append])

/-! ### The factory of a loop -/

theorem computer_processor (p : PollingLoop) (f : MetricFactory) (cpus : Option Nat)
    (reading : Timed (CpuTimes Float)) :
    (p.processor f cpus reading).2.computer = p.computer := by
  unfold processor
  cases reading.answer with
  | error fault => rfl
  | ok current =>
      dsimp only
      rcases p.tracker.advance current with ⟨interval, tracker⟩
      cases interval <;> rfl

theorem computer_collect (p : PollingLoop) (f : MetricFactory) (sample : Sample)
    (family : Family) : (p.collect f sample family).2.1.computer = p.computer := by
  cases family with
  | processor =>
      have hcount : (p.cpuCount sample.cpuCount).2.1.computer = p.computer := by
        unfold cpuCount
        cases sample.cpuCount.answer <;> rfl
      exact (computer_processor _ f _ _).trans hcount
  | _ => rfl

theorem computer_gatherFamilies (p : PollingLoop) (f : MetricFactory) (sample : Sample)
    (families : List Family) :
    (p.gatherFamilies f sample families).2.1.computer = p.computer := by
  induction families generalizing p with
  | nil => rfl
  | cons family rest ih =>
      have hfamily : (p.gatherFamily f sample family).2.1.computer = p.computer := by
        rw [← computer_collect p f sample family]
        unfold gatherFamily
        rcases p.collect f sample family with ⟨answer, after, log⟩
        cases answer with
        | ok tuples => rfl
        | error fault =>
            dsimp only
            split <;> rfl
      exact (ih _).trans hfamily

theorem gather_keeps (p : PollingLoop) (src : Source σ) (s : σ) :
    (p.gather src s).2.1.factory = p.factory ∧ (p.gather src s).2.1.computer = p.computer := by
  cases h : p.factory with
  | none =>
      refine ⟨(gather_of_none h src s).2.1, ?_⟩
      simp only [gather, h, report]
  | some f =>
      refine ⟨(gather_eq h src s).2.1, ?_⟩
      simp only [gather, h]
      exact computer_gatherFamilies p f (src.sample s).1 Family.all

theorem call_factory (p : PollingLoop) (src : Source σ) (s : σ) (c : Call) :
    (p.call src s c).1.computer = p.computer ∧
      (p.call src s c).1.factory =
        ((p.resolvedBy src s c).getLast?.map fun ids => .ofIds ids p.computer).or p.factory := by
  cases c with
  | start =>
      simp only [call, resolvedBy, start_eq, start_answer]
      cases (src.baseline s).1 with
      | error fault => exact ⟨rfl, rfl⟩
      | ok reading => cases (src.ids (src.baseline s).2.1).1 <;> exact ⟨rfl, rfl⟩
  | gather | cycle =>
      obtain ⟨hfactory, hcomputer⟩ := gather_keeps p src s
      exact ⟨hcomputer, hfactory⟩

/-- The factory of a loop is that of the last start that succeeded. -/
theorem factory_afterCalls (p : PollingLoop) (src : Source σ) (s : σ) (calls : List Call) :
    (p.afterCalls src s calls).1.factory =
      ((p.resolved src s calls).getLast?.map fun ids => .ofIds ids p.computer).or p.factory := by
  induction calls generalizing p s with
  | nil => rfl
  | cons c rest ih =>
      obtain ⟨hcomputer, hfactory⟩ := call_factory p src s c
      have hrest := ih (p.call src s c).1 (p.call src s c).2.1
      rw [hcomputer, hfactory] at hrest
      refine hrest.trans ?_
      rw [resolved, List.getLast?_append]
      cases ((p.call src s c).1.resolved src (p.call src s c).2.1 rest).getLast? <;> rfl

theorem identifies_of_mem_gather {p : PollingLoop} {ids : AgentIds} {computer : Option String}
    (h : p.factory = some (.ofIds ids computer)) (src : Source σ) (s : σ) {t : MetricTuple}
    (ht : t ∈ (p.gather src s).1) : t.Identifies ids computer := by
  rw [(gather_eq h src s).1] at ht
  obtain ⟨family, -, hfamily⟩ := List.mem_flatMap.mp ht
  obtain ⟨name, value, pairs, time, rfl⟩ := exists_tuple_of_mem_segment hfamily
  exact MetricFactory.tuple_identifies ids computer _ name value pairs time

/-- While no start of a run has succeeded, its gathers are empty and ask nothing. Once one has, a
gather asks the questions of a sample, each once and whatever they are answered, between the start
and the end of the sample; its batch begins with the heartbeat, and all its tuples name the
computer of the loop and the identifiers that the last successful start resolved. A cycle hands the
batch of a gather to the callback, and asks what a gather asks. -/
theorem gated_and_identified (computer : Option String) (src : Source σ) (s : σ)
    (calls : List Call) :
    let p : PollingLoop := { computer := computer }
    let reached := p.afterCalls src s calls
    let batch := (reached.1.gather src reached.2.1).1
    let resolved := p.resolved src s calls
    (resolved = [] ↔ ∀ earlier later, calls = earlier ++ .start :: later →
        let q := p.afterCalls src s earlier
        (q.1.start src q.2.1).1 ≠ .ok ()) ∧
      (resolved = [] →
        batch = [] ∧ p.asked src s (calls ++ [.gather]) = p.asked src s calls) ∧
      (∀ ids ∈ resolved.getLast?,
        p.asked src s (calls ++ [.gather]) = p.asked src s calls ++
          [.startSample, .memory, .cpuCount, .cpuTimes, .filesystems, .traffic, .endSample] ∧
        (∃ heartbeat rest, batch = heartbeat :: rest ∧ heartbeat.subject = "Computer" ∧
          heartbeat.name = "Heartbeat" ∧ heartbeat.value = 1.0) ∧
        ∀ t ∈ batch, t.Identifies ids computer) ∧
      (∀ (κ : Type) (receive : κ → Batch → Delivery × κ) (k : κ),
        let cycle := reached.1.runCycle src receive reached.2.1 k
        cycle.batch = batch ∧ (cycle.delivery, cycle.callback) = receive k batch) ∧
      ∀ receive, p.asked src s (calls ++ [.cycle receive]) =
        p.asked src s (calls ++ [.gather]) := by
  intro p reached batch resolved
  have hfactory : reached.1.factory =
      (resolved.getLast?.map fun ids => .ofIds ids computer).or none :=
    factory_afterCalls p src s calls
  have hasked := asked_concat p src s calls
  refine ⟨resolved_eq_nil_iff p src s calls, ?_, ?_, fun κ receive k => ⟨rfl, rfl⟩, ?_⟩
  · intro hnil
    rw [hnil] at hfactory
    refine ⟨(gather_of_none hfactory src _).1, ?_⟩
    rw [hasked, questions, show reached.1.factory = none from hfactory, List.append_nil]
  · intro ids hids
    rw [Option.mem_def.mp hids] at hfactory
    have hstarted : reached.1.factory = some (.ofIds ids computer) := hfactory
    refine ⟨?_, ?_, fun t ht => identifies_of_mem_gather hstarted src _ ht⟩
    · rw [hasked, questions, hstarted]
      rfl
    · have hbatch := (gather_eq hstarted src reached.2.1).1
      exact ⟨_, _, hbatch, rfl, rfl, rfl⟩
  · intro receive
    rw [hasked, hasked]
    rfl

/-- A source that finds its identifiers only when it is asked for the second time. -/
def lateIds : Source ℕ where
  baseline n := (.ok ⟨100.0, 50.0⟩, n, [])
  ids n := (if n = 0 then .error (.unavailable .agentIds) else .ok (.multiple ["a", "b"]), n + 1)
  startSample := id
  memory n := (.error (.file .notFound), n)
  cpuCount n := (.ok 2, n)
  cpuTimes n := (.error (.file .notFound), n)
  filesystems n := (.ok [], n)
  traffic n := (.ok [], n)
  endSample := id
  clock n := (⟨n, ⟨0, 0⟩⟩, n)

/-- A start that gets no further than the baseline leaves the loop shut; the next one opens it. -/
theorem gated_and_identified_late :
    let p : PollingLoop := { computer := some "c" }
    let reached := p.afterCalls lateIds 0 [.start, .gather, .start]
    p.resolved lateIds 0 [.start] = [] ∧
      p.asked lateIds 0 ([.start] ++ [.gather]) = p.asked lateIds 0 [.start] ∧
      p.resolved lateIds 0 [.start, .gather, .start] = [.multiple ["a", "b"]] ∧
      ∀ t ∈ (reached.1.gather lateIds reached.2.1).1,
        t.Identifies (.multiple ["a", "b"]) (some "c") := by
  intro p reached
  have hfirst : p.resolved lateIds 0 [.start] = [] := by decide +kernel
  have hboth : p.resolved lateIds 0 [.start, .gather, .start] = [.multiple ["a", "b"]] := by
    decide +kernel
  have hshut := (gated_and_identified (some "c") lateIds 0 [.start]).2.1 hfirst
  have hopen := (gated_and_identified (some "c") lateIds 0 [.start, .gather, .start]).2.2.1
    (.multiple ["a", "b"]) (by rw [hboth]; rfl)
  exact ⟨hfirst, hshut.2, hboth, hopen.2.2⟩

end PollingLoop

end HostGauge
