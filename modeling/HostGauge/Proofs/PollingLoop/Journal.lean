import HostGauge.Proofs.PollingLoop.Segments
import HostGauge.Proofs.Throttle

/-!
The log of a run of calls on one loop. The answers of the source determine what the calls could
write: events that are always written, and incidents, each of which goes through one of the two
throttle slots. The journal of a run lists these entries in order. A slot decides about an
incident by the incidents of its own before it, so the log of the run is its journal with what
the slots, each for itself, hold back. A slot is asked about a key, which stands for the kind and
the message of a fault; the rule that it goes by is said of these.
-/
namespace HostGauge

theorem Fault.key_eq_iff {a b : Fault} :
    a.key = b.key ↔ a.kind = b.kind ∧ a.message = b.message := by
  simp only [Fault.key, Fault.Key.mk.injEq]

namespace PollingLoop

variable {σ : Type}

/-! ### Runs -/

inductive Call where
  | start
  | gather
  /-- A cycle, with the callback as it is by then. -/
  | cycle (receive : Batch → Delivery)

/-- What a call makes of the loop and its source, and what it writes to the log. -/
def call (p : PollingLoop) (src : Source σ) (s : σ) : Call → PollingLoop × σ × Log
  | .start => (p.start src s).2
  | .gather => (p.gather src s).2
  | .cycle receive =>
    let c := p.runCycle src (fun k batch => (receive batch, k)) s ()
    (c.loop, c.source, c.log)

def afterCalls (p : PollingLoop) (src : Source σ) (s : σ) : List Call → PollingLoop × σ × Log
  | [] => (p, s, [])
  | c :: rest =>
    let (p, s, log) := p.call src s c
    let (p, s, more) := p.afterCalls src s rest
    (p, s, log ++ more)

/-! ### Entries -/

inductive Slot where
  | general
  | cpuCount
  deriving DecidableEq, Repr

def slot (p : PollingLoop) : Slot → Throttle
  | .general => p.throttle
  | .cpuCount => p.cpuThrottle

/-- A fault that came up at a moment, and the event that tells of it. -/
structure Incident where
  fault : Fault
  moment : Moment
  event : LogEvent
  deriving DecidableEq, Repr

/-- What a slot is asked about an incident. -/
def Incident.query (x : Incident) : Throttle.Query := ⟨x.fault.key, x.moment⟩

inductive Entry where
  /-- Always written. -/
  | plain (event : LogEvent)
  /-- Written if the slot has it reported. -/
  | incident (slot : Slot) (incident : Incident)
  deriving DecidableEq, Repr

namespace Entry

def event : Entry → LogEvent
  | plain event => event
  | incident _ x => x.event

/-- The incident that an entry brings to a slot. -/
def incident? (slot : Slot) : Entry → Option Incident
  | plain _ => none
  | incident other x => if other = slot then some x else none

def isWrittenBy (slots : Slot → Throttle) : Entry → Bool
  | plain _ => true
  | incident slot x => ((slots slot).shouldReport x.fault.key x.moment).1

theorem incident?_eq_some_iff {slot : Slot} {e : Entry} {x : Incident} :
    e.incident? slot = some x ↔ e = .incident slot x := by
  cases e with
  | plain event => exact iff_of_false nofun nofun
  | incident other y =>
      by_cases h : other = slot
      · subst h
        simp [incident?]
      · simp [incident?, h]

end Entry

/-- The queries of some entries to a slot. -/
def queries (slot : Slot) (entries : List Entry) : List Throttle.Query :=
  entries.filterMap fun e => (e.incident? slot).map Incident.query

/-- The slots after some entries, each after the queries that are put to it. -/
def slotsAfter (slots : Slot → Throttle) (entries : List Entry) : Slot → Throttle :=
  fun slot => (slots slot).after (queries slot entries)

/-- The entries, each with whether it is written. -/
def mark (slots : Slot → Throttle) : List Entry → List (Entry × Bool)
  | [] => []
  | e :: rest => (e, e.isWrittenBy slots) :: mark (slotsAfter slots [e]) rest

/-- The log that a marked journal stands for. -/
def written (marked : List (Entry × Bool)) : Log := (marked.filter (·.2)).map (·.1.event)

/-- What becomes of the incidents of a slot in a marked journal. -/
def verdictsOf (slot : Slot) (marked : List (Entry × Bool)) : List (Incident × Bool) :=
  marked.filterMap fun m => (m.1.incident? slot).map (·, m.2)

/-- What the slot answers where it is asked about an incident. -/
def answered (verdict : Incident × Bool) : Throttle.Query × Bool := (verdict.1.query, verdict.2)

/-! ### The rule -/

/-- An incident is due for a report: it is the first one, or the one before is of another kind or
has another message, or sixty minutes have passed since the last one that was reported. -/
def Due (earlier : List (Incident × Bool)) (x : Incident) : Prop :=
  earlier = [] ∨
    (∃ before ∈ earlier.getLast?,
      before.1.fault.kind ≠ x.fault.kind ∨ before.1.fault.message ≠ x.fault.message) ∨
    ∃ report ∈ (earlier.filter (·.2)).getLast?, report.1.moment + 60 * 60 * 1000000000 ≤ x.moment

/-- At every place of a sequence, what is due is reported, and nothing else. -/
def ByRule (verdicts : List (Incident × Bool)) : Prop :=
  ∀ earlier x reported later, verdicts = earlier ++ (x, reported) :: later →
    (reported = true ↔ Due earlier x)

/-- The queries about some incidents are due where these are. -/
theorem due_answered_iff (earlier : List (Incident × Bool)) (x : Incident) :
    Throttle.Due Throttle.standardWindow (earlier.map answered) x.query ↔ Due earlier x := by
  have hkey : ∀ before : Incident × Bool, (answered before).1.key ≠ x.query.key ↔
      before.1.fault.kind ≠ x.fault.kind ∨ before.1.fault.message ≠ x.fault.message := by
    intro before
    rw [← not_and_or, ← Fault.key_eq_iff]
    rfl
  have hreports : (earlier.map answered).filter (·.2) = (earlier.filter (·.2)).map answered :=
    List.filter_map
  have hhour : Throttle.standardWindow.nanos = 60 * 60 * 1000000000 := rfl
  unfold Throttle.Due Due
  rw [hreports, List.getLast?_map, List.getLast?_map, List.map_eq_nil_iff, hhour]
  simp only [Option.mem_def, Option.map_eq_some_iff, exists_exists_and_eq_and, hkey]
  rfl

theorem byRule_of_answered {verdicts : List (Incident × Bool)}
    (h : Throttle.ByRule Throttle.standardWindow (verdicts.map answered)) : ByRule verdicts := by
  rintro earlier x reported later rfl
  have hsplit : (earlier ++ (x, reported) :: later).map answered =
      earlier.map answered ++ (x.query, reported) :: later.map answered := List.map_append
  rw [← due_answered_iff]
  exact h _ _ _ _ hsplit

section Marking

variable (slots : Slot → Throttle)

theorem slotsAfter_append (a b : List Entry) :
    slotsAfter slots (a ++ b) = slotsAfter (slotsAfter slots a) b := by
  funext slot
  simp only [slotsAfter, queries, List.filterMap_append, Throttle.after_append]

theorem mark_append (a b : List Entry) :
    mark slots (a ++ b) = mark slots a ++ mark (slotsAfter slots a) b := by
  induction a generalizing slots with
  | nil => rfl
  | cons e rest ih =>
      have hafter := slotsAfter_append slots [e] rest
      rw [List.singleton_append] at hafter
      simp only [List.cons_append, mark, ih, hafter]

theorem map_fst_mark (entries : List Entry) : (mark slots entries).map Prod.fst = entries := by
  induction entries generalizing slots with
  | nil => rfl
  | cons e rest ih => simp only [mark, List.map_cons, ih]

theorem written_append (a b : List (Entry × Bool)) : written (a ++ b) = written a ++ written b := by
  simp only [written, List.filter_append, List.map_append]

/-- Each slot decides about its incidents as if there were no others. -/
theorem answered_verdictsOf_mark (slot : Slot) (entries : List Entry) :
    (verdictsOf slot (mark slots entries)).map answered =
      (slots slot).verdicts (queries slot entries) := by
  induction entries generalizing slots with
  | nil => rfl
  | cons e rest ih =>
      have hrest := ih (slotsAfter slots [e])
      cases h : e.incident? slot with
      | none =>
          have hafter : slotsAfter slots [e] slot = slots slot := by
            simp only [slotsAfter, queries, List.filterMap_cons, h, Option.map_none,
              List.filterMap_nil, Throttle.after]
          rw [hafter] at hrest
          simp only [verdictsOf, queries] at hrest
          simp only [verdictsOf, queries, mark, List.filterMap_cons, h, Option.map_none, hrest]
      | some x =>
          obtain rfl := Entry.incident?_eq_some_iff.mp h
          have hafter : slotsAfter slots [.incident slot x] slot =
              ((slots slot).shouldReport x.fault.key x.moment).2 := by
            simp only [slotsAfter, queries, List.filterMap_cons, h, Option.map_some,
              List.filterMap_nil, Throttle.after, Incident.query]
          rw [hafter] at hrest
          simp only [verdictsOf, queries] at hrest
          simp only [verdictsOf, queries, mark, List.filterMap_cons, h, Option.map_some,
            List.map_cons, hrest, Throttle.verdicts, Entry.isWrittenBy, answered, Incident.query]

theorem written_of_plain {entries : List Entry} {event : LogEvent} {b : Bool}
    (h : (Entry.plain event, b) ∈ mark slots entries) : b = true := by
  induction entries generalizing slots with
  | nil => cases h
  | cons e rest ih =>
      rcases List.mem_cons.mp h with heq | hrest
      · obtain ⟨rfl, rfl⟩ := Prod.mk.inj heq
        rfl
      · exact ih _ hrest

theorem written_mark_plain (log : Log) : written (mark slots (log.map .plain)) = log := by
  induction log generalizing slots with
  | nil => rfl
  | cons event rest ih => exact congrArg (event :: ·) (ih _)

theorem slotsAfter_plain (log : Log) : slotsAfter slots (log.map .plain) = slots := by
  induction log with
  | nil => rfl
  | cons event rest ih => exact ih

end Marking

/-! ### The journal of a call -/

/-- What the general slot is asked about a family: its fault, unless the figures are unavailable. -/
def familyIncident? (p : PollingLoop) (f : MetricFactory) (sample : Sample) (family : Family) :
    Option Incident :=
  match (p.collect f sample family).1 with
  | .ok _ => none
  | .error fault =>
    if fault.isUnavailable then none
    else some ⟨fault, (familyTime sample family).moment, familyFailed family fault⟩

/-- What the other slot is asked about the number of processors: any fault. -/
def countIncident? (count : Timed Nat) : Option Incident :=
  match count.answer with
  | .ok _ => none
  | .error fault => some ⟨fault, count.time.moment, cpuCountFailed fault⟩

/-- What is asked while a family is collected, before its own fault. -/
def countEntries (sample : Sample) : Family → List Entry
  | .processor => ((countIncident? sample.cpuCount).map (.incident .cpuCount)).toList
  | _ => []

def familyEntries (p : PollingLoop) (f : MetricFactory) (sample : Sample) (family : Family) :
    List Entry :=
  countEntries sample family ++
    ((p.familyIncident? f sample family).map (.incident .general)).toList

/-- What a loop that was never started reports of a gather. -/
def notStarted (moment : Moment) : Incident :=
  ⟨.notBaselined, moment, .error Fault.notBaselined.message⟩

def gatherEntries (p : PollingLoop) (src : Source σ) (s : σ) : List Entry :=
  match p.factory with
  | none => [.incident .general (notStarted (src.clock s).1.moment)]
  | some f => Family.all.flatMap (p.familyEntries f (src.sample s).1)

def entries (p : PollingLoop) (src : Source σ) (s : σ) : Call → List Entry
  | .start => (p.start src s).2.2.2.map .plain
  | .gather => p.gatherEntries src s
  | .cycle receive =>
    p.gatherEntries src s ++ (receive (p.gather src s).1).log.map .plain

/-- The entries of a run of calls. -/
def journal (p : PollingLoop) (src : Source σ) (s : σ) : List Call → List Entry
  | [] => []
  | c :: rest =>
    p.entries src s c ++ (p.call src s c).1.journal src (p.call src s c).2.1 rest

/-- A family comes to a fault in a gather, and not because its figures are unavailable. -/
def Fails (p : PollingLoop) (src : Source σ) (s : σ) (family : Family) (fault : Fault) : Prop :=
  ∃ f, p.factory = some f ∧ (p.collect f (src.sample s).1 family).1 = .error fault ∧
    fault.isUnavailable = false

/-- The incidents that a gather can bring up, and the slots they go through. -/
inductive Arises (p : PollingLoop) (src : Source σ) (s : σ) : Slot → Incident → Prop where
  | notStarted (h : p.factory = none) :
      Arises p src s .general (notStarted (src.clock s).1.moment)
  | family {family : Family} {fault : Fault} (h : p.Fails src s family fault) :
      Arises p src s .general
        ⟨fault, (familyTime (src.sample s).1 family).moment, familyFailed family fault⟩
  | cpuCount {fault : Fault} (h : (src.sample s).1.cpuCount.answer = .error fault) :
      Arises p src s .cpuCount
        ⟨fault, (src.sample s).1.cpuCount.time.moment, cpuCountFailed fault⟩

section Incidents

variable {p : PollingLoop} {src : Source σ} {s : σ} {slot : Slot} {x : Incident}

theorem arises_of_mem_familyEntries {f : MetricFactory} {family : Family} (hf : p.factory = some f)
    (h : Entry.incident slot x ∈ p.familyEntries f (src.sample s).1 family) :
    p.Arises src s slot x := by
  rcases List.mem_append.mp h with hcount | hown
  · cases family with
    | processor =>
        simp only [countEntries, countIncident?] at hcount
        cases hanswer : (src.sample s).1.cpuCount.answer with
        | ok n => simp [hanswer] at hcount
        | error fault =>
            rw [hanswer] at hcount
            cases List.mem_singleton.mp hcount
            exact .cpuCount hanswer
    | _ => cases hcount
  · simp only [familyIncident?] at hown
    cases hanswer : (p.collect f (src.sample s).1 family).1 with
    | ok tuples => simp [hanswer] at hown
    | error fault =>
        rw [hanswer] at hown
        by_cases hfault : fault.isUnavailable = true
        · simp [hfault] at hown
        · simp only [hfault, Bool.false_eq_true, if_false, Option.map_some, Option.toList_some,
            List.mem_singleton] at hown
          cases hown
          exact .family ⟨f, hf, hanswer, Bool.not_eq_true _ ▸ hfault⟩

theorem arises_of_mem_gatherEntries (h : Entry.incident slot x ∈ p.gatherEntries src s) :
    p.Arises src s slot x := by
  unfold gatherEntries at h
  cases hf : p.factory with
  | none =>
      rw [hf] at h
      cases List.mem_singleton.mp h
      exact .notStarted hf
  | some f =>
      rw [hf] at h
      obtain ⟨family, -, hfamily⟩ := List.mem_flatMap.mp h
      exact arises_of_mem_familyEntries hf hfamily

theorem not_mem_plain (log : Log) : Entry.incident slot x ∉ log.map Entry.plain := by
  intro h
  obtain ⟨event, -, heq⟩ := List.mem_map.mp h
  cases heq

theorem arises_of_mem_entries {c : Call} (h : Entry.incident slot x ∈ p.entries src s c) :
    p.Arises src s slot x := by
  cases c with
  | start => exact absurd h (not_mem_plain _)
  | gather => exact arises_of_mem_gatherEntries h
  | cycle receive =>
      rcases List.mem_append.mp h with hgather | hplain
      · exact arises_of_mem_gatherEntries hgather
      · exact absurd hplain (not_mem_plain _)

theorem Arises.level_eq (h : p.Arises src s slot x) : x.event.level = .error := by
  cases h <;> rfl

theorem level_of_mem_journal {calls : List Call}
    (h : Entry.incident slot x ∈ p.journal src s calls) : x.event.level = .error := by
  induction calls generalizing p s with
  | nil => cases h
  | cons c rest ih =>
      rcases List.mem_append.mp h with hfirst | hrest
      · exact (arises_of_mem_entries hfirst).level_eq
      · exact ih hrest

end Incidents

/-! ### Loops follow their journals -/

variable {p q r : PollingLoop} {f : MetricFactory} {sample : Sample} {family : Family}
  {a b : List Entry} {log more : Log}

/-- From one loop to another, a log is written as the slots have it for the entries of a journal,
and the slots move on as they do for these entries. -/
structure Follows (p : PollingLoop) (entries : List Entry) (q : PollingLoop) (log : Log) :
    Prop where
  slots : q.slot = slotsAfter p.slot entries
  log : log = written (mark p.slot entries)

theorem Follows.append (h : Follows p a q log) (h' : Follows q b r more) :
    Follows p (a ++ b) r (log ++ more) := by
  refine ⟨?_, ?_⟩
  · rw [h'.slots, h.slots, slotsAfter_append]
  · rw [h.log, h'.log, mark_append, written_append, h.slots]

theorem follows_nil (h : q.slot = p.slot) : Follows p [] q [] := ⟨h, rfl⟩

theorem follows_plain (h : q.slot = p.slot) (log : Log) : Follows p (log.map .plain) q log :=
  ⟨h.trans (slotsAfter_plain p.slot log).symm, (written_mark_plain p.slot log).symm⟩

theorem slot_congr (h : q.throttle = p.throttle) (h' : q.cpuThrottle = p.cpuThrottle) :
    q.slot = p.slot := by
  funext slot
  cases slot with
  | general => exact h
  | cpuCount => exact h'

theorem report_follows (p : PollingLoop) (fault : Fault) (now : Moment) (event : LogEvent) :
    Follows p [.incident .general ⟨fault, now, event⟩] (p.report fault now event).1
      (p.report fault now event).2 := by
  refine ⟨?_, ?_⟩
  · funext slot
    cases slot <;> rfl
  · rw [report]
    simp only [mark, Entry.isWrittenBy, written, slot]
    cases (p.throttle.shouldReport fault.key now).1 <;> rfl

theorem cpuCount_follows (p : PollingLoop) (sample : Sample) :
    Follows p (countEntries sample .processor) (p.cpuCount sample.cpuCount).2.1
      (p.cpuCount sample.cpuCount).2.2 := by
  simp only [countEntries, countIncident?, cpuCount]
  cases sample.cpuCount.answer with
  | ok n => exact follows_nil rfl
  | error fault =>
      refine ⟨?_, ?_⟩
      · funext slot
        cases slot <;> rfl
      · simp only [Option.map_some, Option.toList_some, mark, Entry.isWrittenBy, written, slot]
        cases (p.cpuThrottle.shouldReport fault.key sample.cpuCount.time.moment).1 <;> rfl

theorem slot_processor (cpus : Option Nat) (reading : Timed (CpuTimes Float)) :
    (p.processor f cpus reading).2.slot = p.slot := by
  unfold processor
  cases reading.answer with
  | error fault => rfl
  | ok current =>
      dsimp only
      rcases p.tracker.advance current with ⟨interval, tracker⟩
      cases interval <;> exact slot_congr rfl rfl

theorem collect_follows (p : PollingLoop) (f : MetricFactory) (sample : Sample)
    (family : Family) :
    Follows p (countEntries sample family) (p.collect f sample family).2.1
      (p.collect f sample family).2.2 := by
  cases family with
  | processor =>
      have h := cpuCount_follows p sample
      refine ⟨?_, h.log⟩
      rw [← h.slots]
      exact slot_processor _ _
  | _ => exact follows_nil rfl

theorem gatherFamily_of_unavailable {fault : Fault}
    (h : (p.collect f sample family).1 = .error fault) (hfault : fault.isUnavailable = true) :
    p.gatherFamily f sample family = ([], (p.collect f sample family).2) := by
  unfold gatherFamily
  rcases hcollect : p.collect f sample family with ⟨answer, after, log⟩
  rw [hcollect] at h
  dsimp only at h
  subst h
  simp only [hfault, if_true]

theorem gatherFamily_follows (p : PollingLoop) (f : MetricFactory) (sample : Sample)
    (family : Family) :
    Follows p (p.familyEntries f sample family) (p.gatherFamily f sample family).2.1
      (p.gatherFamily f sample family).2.2 := by
  have hcollect := collect_follows p f sample family
  unfold gatherFamily familyEntries familyIncident?
  generalize p.collect f sample family = collected at hcollect ⊢
  obtain ⟨answer, after, log⟩ := collected
  cases answer with
  | ok tuples => simpa using hcollect
  | error fault =>
      dsimp only at hcollect ⊢
      by_cases h : fault.isUnavailable = true
      · rw [if_pos h, if_pos h]
        simpa using hcollect
      · rw [if_neg h, if_neg h]
        exact hcollect.append (report_follows after fault _ _)

/-- The fault of the processor depends on the loop through its tracker, that of others not. -/
theorem familyEntries_congr (h : family = .processor → p.tracker = q.tracker) :
    p.familyEntries f sample family = q.familyEntries f sample family := by
  simp only [familyEntries, familyIncident?, collect_congr h]

theorem gatherFamilies_follows (p : PollingLoop) (f : MetricFactory) (sample : Sample)
    {families : List Family} (h : families.Nodup) :
    Follows p (families.flatMap (p.familyEntries f sample)) (p.gatherFamilies f sample families).2.1
      (p.gatherFamilies f sample families).2.2 := by
  induction families generalizing p with
  | nil => exact follows_nil rfl
  | cons family rest ih =>
      obtain ⟨hnew, hrest⟩ := List.nodup_cons.mp h
      -- The journal is that of the loop at the start of the gather: only the processor moves the
      -- tracker, and it is not gathered twice.
      have hsame : ∀ other ∈ rest,
          (p.gatherFamily f sample family).2.1.familyEntries f sample other =
            p.familyEntries f sample other := by
        intro other hother
        refine familyEntries_congr fun hprocessor => ?_
        have hne : family ≠ .processor := by
          rintro rfl
          rw [hprocessor] at hother
          exact hnew hother
        rw [(gatherFamily_eq p f sample family).2.1, if_neg hne]
      have hfirst := gatherFamily_follows p f sample family
      have hothers := ih (p.gatherFamily f sample family).2.1 hrest
      rw [List.flatMap_congr hsame] at hothers
      rw [List.flatMap_cons]
      exact hfirst.append hothers

theorem gather_follows (p : PollingLoop) (src : Source σ) (s : σ) :
    Follows p (p.gatherEntries src s) (p.gather src s).2.1 (p.gather src s).2.2.2 := by
  unfold gatherEntries gather
  cases p.factory with
  | none => exact report_follows p _ _ _
  | some f => exact gatherFamilies_follows p f (src.sample s).1 (by decide)

theorem slot_start (p : PollingLoop) (src : Source σ) (s : σ) :
    (p.start src s).2.1.slot = p.slot := by
  unfold start
  rcases src.baseline s with ⟨baseline, t, log⟩
  cases baseline with
  | error fault => rfl
  | ok reading =>
      dsimp only
      rcases src.ids t with ⟨ids, u⟩
      cases ids <;> exact slot_congr rfl rfl

theorem call_follows (p : PollingLoop) (src : Source σ) (s : σ) (c : Call) :
    Follows p (p.entries src s c) (p.call src s c).1 (p.call src s c).2.2 := by
  cases c with
  | start => exact follows_plain (slot_start p src s) _
  | gather => exact gather_follows p src s
  | cycle receive => exact (gather_follows p src s).append (follows_plain rfl _)

theorem afterCalls_follows (p : PollingLoop) (src : Source σ) (s : σ) (calls : List Call) :
    Follows p (p.journal src s calls) (p.afterCalls src s calls).1
      (p.afterCalls src s calls).2.2 := by
  induction calls generalizing p s with
  | nil => exact follows_nil rfl
  | cons c rest ih => exact (call_follows p src s c).append (ih _ _)

/-- The slots of a loop that is new. -/
theorem slot_new (computer : Option String) (slot : Slot) :
    ({ computer := computer } : PollingLoop).slot slot = ⟨Throttle.standardWindow, none⟩ := by
  cases slot <;> rfl

/-- The log of any run of calls on a new loop is its journal with some incidents left out. Each
slot decides about its own incidents, from these alone and by the rule: what is the first one, or
differs in kind or message from the one before, or comes sixty minutes or more after the last one
reported is written, as an error, and nothing else. That figures of a family are unavailable is no
incident: neither the log nor a slot shows it. -/
theorem log_by_rule (computer : Option String) (src : Source σ) (s : σ) (calls : List Call) :
    let p : PollingLoop := { computer := computer }
    let journal := p.journal src s calls
    (∃ marked : List (Entry × Bool), marked.map Prod.fst = journal ∧
      (p.afterCalls src s calls).2.2 = written marked ∧
      (∀ event reported, (Entry.plain event, reported) ∈ marked → reported = true) ∧
      ∀ slot, ByRule (verdictsOf slot marked) ∧
        (verdictsOf slot marked).map answered =
          Throttle.standard.verdicts (queries slot journal)) ∧
    (∀ slot x, Entry.incident slot x ∈ journal → x.event.level = .error) ∧
    (∀ slot, (p.afterCalls src s calls).1.slot slot =
      Throttle.standard.after (queries slot journal)) ∧
    ∀ (q : PollingLoop) (f : MetricFactory) (sample : Sample) (family : Family) (fault : Fault),
      (q.collect f sample family).1 = .error fault → fault.isUnavailable = true →
        (q.gatherFamily f sample family).2 = (q.collect f sample family).2 ∧
          q.familyEntries f sample family = countEntries sample family := by
  intro p journal
  have hfollows := afterCalls_follows p src s calls
  have hslot : ∀ slot, p.slot slot = Throttle.standard := slot_new computer
  refine ⟨⟨mark p.slot journal, map_fst_mark _ _, hfollows.log, ?_, ?_⟩, ?_, ?_, ?_⟩
  · intro event reported hmem
    exact written_of_plain _ hmem
  · intro slot
    have hverdicts := answered_verdictsOf_mark p.slot slot journal
    rw [hslot] at hverdicts
    refine ⟨byRule_of_answered ?_, hverdicts⟩
    rw [hverdicts]
    exact Throttle.byRule_verdicts _ _
  · intro slot x hmem
    exact level_of_mem_journal hmem
  · intro slot
    rw [hfollows.slots, slotsAfter, hslot]
  · intro q f sample family fault hfault hunavailable
    refine ⟨congrArg Prod.snd (gatherFamily_of_unavailable hfault hunavailable), ?_⟩
    simp only [familyEntries, familyIncident?, hfault, hunavailable, if_true, Option.map_none,
      Option.toList_none, List.append_nil]

/-- Of the gathers of a loop that was never started, half an hour apart, every other one is
reported. -/
example :
    let halfHourly : Source ℕ :=
      { baseline := fun n => (.error .notBaselined, n, [])
        ids := fun n => (.error .notBaselined, n)
        startSample := id
        memory := fun n => (.error .notBaselined, n)
        cpuCount := fun n => (.error .notBaselined, n)
        cpuTimes := fun n => (.error .notBaselined, n)
        filesystems := fun n => (.error .notBaselined, n)
        traffic := fun n => (.error .notBaselined, n)
        endSample := id
        clock := fun n => (⟨n * 30 * 60 * 1000000000, ⟨n, 0⟩⟩, n + 1) }
    let run := ({} : PollingLoop).afterCalls halfHourly 0 [.gather, .gather, .gather, .gather]
    run.2.2 = [.error "baseline has not been called", .error "baseline has not been called"] ∧
      run.2.1 = 4 := by
  decide +kernel

end PollingLoop

end HostGauge
