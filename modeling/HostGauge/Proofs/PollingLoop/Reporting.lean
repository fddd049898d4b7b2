import HostGauge.Proofs.PollingLoop.Journal

/-!
What the log of a run tells of the faults of the families. The general slot knows a fault by its
kind and message, and not by its family. So a fault of a family falls into the window of an event
about a fault of its kind and message; this event names the family, unless another family, or a
gather of the loop before it was started, came to the same kind and message.
-/
namespace HostGauge

/-- Faults that count as one where they are reported: they have one key, and so are of one kind and
have one message. -/
structure Fault.Alike (a b : Fault) : Prop where
  key : a.key = b.key
  kind : a.kind = b.kind
  message : a.message = b.message

theorem Fault.alike_of_key_eq {a b : Fault} (h : a.key = b.key) : a.Alike b :=
  ⟨h, (Fault.key_eq_iff.mp h).1, (Fault.key_eq_iff.mp h).2⟩

namespace PollingLoop

variable {σ : Type} {p : PollingLoop} {src : Source σ} {s : σ} {family : Family} {fault : Fault}

/-! ### Where the events of a run were written -/

theorem journal_append (p : PollingLoop) (src : Source σ) (s : σ) (a b : List Call) :
    p.journal src s (a ++ b) =
      p.journal src s a ++
        (p.afterCalls src s a).1.journal src (p.afterCalls src s a).2.1 b := by
  induction a generalizing p s with
  | nil => rfl
  | cons c rest ih =>
      simp only [List.cons_append, journal, ih, List.append_assoc, afterCalls]

theorem mem_of_mem_mark {slots : Slot → Throttle} {entries : List Entry} {e : Entry} {b : Bool}
    (h : (e, b) ∈ mark slots entries) : e ∈ entries := by
  rw [← map_fst_mark slots entries]
  exact List.mem_map_of_mem h

theorem event_mem_written {marked : List (Entry × Bool)} {e : Entry} (h : (e, true) ∈ marked) :
    e.event ∈ written marked :=
  List.mem_map_of_mem (List.mem_filter.mpr ⟨h, rfl⟩)

/-- An entry that is written in a run is written by one of its calls. -/
theorem exists_call_of_mem_mark {calls : List Call} {e : Entry}
    (h : (e, true) ∈ mark p.slot (p.journal src s calls)) :
    ∃ earlier c later, calls = earlier ++ c :: later ∧
      let q := p.afterCalls src s earlier
      e ∈ q.1.entries src q.2.1 c ∧ e.event ∈ (q.1.call src q.2.1 c).2.2 := by
  induction calls generalizing p s with
  | nil => cases h
  | cons c rest ih =>
      have hcall := call_follows p src s c
      rw [journal, mark_append] at h
      rcases List.mem_append.mp h with hfirst | hrest
      · refine ⟨[], c, rest, rfl, mem_of_mem_mark hfirst, ?_⟩
        have hwritten := event_mem_written hfirst
        rwa [← hcall.log] at hwritten
      · rw [← hcall.slots] at hrest
        obtain ⟨earlier, d, later, hsplit, hentry, hevent⟩ := ih hrest
        exact ⟨c :: earlier, d, later, congrArg (c :: ·) hsplit, hentry, hevent⟩

theorem mem_of_mem_verdictsOf {slot : Slot} {marked : List (Entry × Bool)} {x : Incident}
    {b : Bool} (h : (x, b) ∈ verdictsOf slot marked) : (Entry.incident slot x, b) ∈ marked := by
  obtain ⟨⟨e, c⟩, hmem, hverdict⟩ := List.mem_filterMap.mp h
  obtain ⟨y, hy, heq⟩ := Option.map_eq_some_iff.mp hverdict
  obtain ⟨rfl, rfl⟩ := Prod.mk.inj heq
  rwa [← Entry.incident?_eq_some_iff.mp hy]

/-! ### Faults of families -/

/-- When a fault of a family comes up in a gather. -/
def failureTime (src : Source σ) (s : σ) (family : Family) : Moment :=
  (familyTime (src.sample s).1 family).moment

/-- The incident that the fault of a family is. -/
theorem mem_entries_of_fails {c : Call} (hc : c ≠ .start) (h : p.Fails src s family fault) :
    Entry.incident .general ⟨fault, failureTime src s family, familyFailed family fault⟩ ∈
      p.entries src s c := by
  obtain ⟨f, hf, hfault, hunavailable⟩ := h
  have hgather : Entry.incident .general
      ⟨fault, failureTime src s family, familyFailed family fault⟩ ∈ p.gatherEntries src s := by
    simp only [gatherEntries, hf]
    refine List.mem_flatMap.mpr ⟨family, by cases family <;> decide, ?_⟩
    refine List.mem_append_right _ ?_
    simp [familyIncident?, hfault, hunavailable, failureTime]
  cases c with
  | start => exact absurd rfl hc
  | gather => exact hgather
  | cycle receive => exact List.mem_append_left _ hgather

/-- Events of one call on a loop that stand for a fault of a family at a moment: the call wrote
them, about a fault of the same kind and message, and their window has not passed. -/
structure StandsFor (p : PollingLoop) (src : Source σ) (s : σ) (c : Call) (x : Incident)
    (family : Family) (fault : Fault) (moment : Moment) : Prop where
  mem_entries : Entry.incident .general x ∈ p.entries src s c
  mem_log : x.event ∈ (p.call src s c).2.2
  alike : x.fault.Alike fault
  within : moment < x.moment + Throttle.standardWindow.nanos
  names : x.event = familyFailed family fault ∨
    (∃ other, other ≠ family ∧ (∃ same, p.Fails src s other same ∧ same.Alike fault) ∧
      x.event = familyFailed other fault) ∨
    (p.factory = none ∧ Fault.notBaselined.Alike fault ∧ x.event = .error fault.message)

theorem Arises.names {x : Incident} (h : p.Arises src s .general x) (halike : x.fault.Alike fault)
    (family : Family) :
    x.event = familyFailed family fault ∨
      (∃ other, other ≠ family ∧ (∃ same, p.Fails src s other same ∧ same.Alike fault) ∧
        x.event = familyFailed other fault) ∨
      (p.factory = none ∧ Fault.notBaselined.Alike fault ∧ x.event = .error fault.message) := by
  cases h with
  | notStarted hnone =>
      exact .inr (.inr ⟨hnone, halike, congrArg LogEvent.error halike.message⟩)
  | @family other same hfails =>
      have hevent : familyFailed other same = familyFailed other fault := by
        simp only [familyFailed, halike.message]
      by_cases hother : other = family
      · subst hother
        exact .inl hevent
      · exact .inr (.inl ⟨other, hother, ⟨same, hfails, halike⟩, hevent⟩)

/-- In any run of calls on a new loop, a family that comes to a fault in the last gather, its
figures being unavailable apart, is told of by an event of that gather or of a call less than an
hour before. The event names the family and the fault, unless a fault of the same kind and message
came up before it in another family, or in a gather of the loop before it was started: then it is
the event about that. -/
theorem failure_reported (computer : Option String) (src : Source σ) (s : σ) (calls : List Call)
    (last : Call) (hlast : last ≠ .start) :
    let p : PollingLoop := { computer := computer }
    let reached := p.afterCalls src s calls
    ∀ family fault, reached.1.Fails src reached.2.1 family fault →
      ∃ earlier c later x, calls ++ [last] = earlier ++ c :: later ∧
        let q := p.afterCalls src s earlier
        q.1.StandsFor src q.2.1 c x family fault (failureTime src reached.2.1 family) := by
  intro p reached family fault hfails
  have hlastEntry := mem_entries_of_fails hlast hfails
  have hjournal : Entry.incident .general
      ⟨fault, failureTime src reached.2.1 family, familyFailed family fault⟩ ∈
        p.journal src s (calls ++ [last]) := by
    rw [journal_append]
    refine List.mem_append_right _ ?_
    simpa only [journal, List.append_nil] using hlastEntry
  have hquery : (⟨fault.key, failureTime src reached.2.1 family⟩ : Throttle.Query) ∈
      queries .general (p.journal src s (calls ++ [last])) :=
    List.mem_filterMap.mpr ⟨_, hjournal, rfl⟩
  have hwindow : 0 < (p.slot .general).window.nanos := by
    change 0 < Throttle.standardWindow.nanos
    decide
  -- A slot that is new has no window open, so the report is one of this run.
  rcases Throttle.within_report_of_mem hwindow hquery with ⟨report, hreport, hkey, hwithin⟩ | hsaved
  · rw [← answered_verdictsOf_mark] at hreport
    obtain ⟨⟨x, written⟩, hverdict, heq⟩ := List.mem_map.mp hreport
    obtain ⟨rfl, rfl⟩ := Prod.mk.inj heq
    have hmark := mem_of_mem_verdictsOf hverdict
    obtain ⟨earlier, c, later, hsplit, hentry, hevent⟩ := exists_call_of_mem_mark hmark
    have halike : x.fault.Alike fault := Fault.alike_of_key_eq hkey
    exact ⟨earlier, c, later, x, hsplit, hentry, hevent, halike, hwithin,
      (arises_of_mem_entries hentry).names halike family⟩
  · obtain ⟨saved, hsome, -⟩ := hsaved
    cases hsome

/-- Two files that are missing: those of the memory and of the uptime. -/
def missingFiles : Source Unit where
  baseline _ := (.ok ⟨100.0, 50.0⟩, (), [])
  ids _ := (.ok (.single "a"), ())
  startSample := id
  memory _ := (.error (.file .notFound), ())
  cpuCount _ := (.ok 2, ())
  cpuTimes _ := (.error (.file .notFound), ())
  filesystems _ := (.ok [], ())
  traffic _ := (.ok [], ())
  endSample := id
  clock _ := (⟨0, ⟨0, 0⟩⟩, ())

/-- The event about the memory stands for the fault of the processor. -/
theorem failure_reported_missing :
    let p : PollingLoop := {}
    let reached := p.afterCalls missingFiles () [.start]
    Call.gather ≠ .start ∧
      reached.1.Fails missingFiles () .processor (.file .notFound) ∧
      ∃ earlier c later x, [Call.start] ++ [.gather] = earlier ++ c :: later ∧
        let q := p.afterCalls missingFiles () earlier
        q.1.StandsFor missingFiles () c x .processor (.file .notFound) 0 := by
  intro p reached
  have hfails : reached.1.Fails missingFiles () .processor (.file .notFound) :=
    ⟨.ofIds (.single "a") none, rfl, rfl, rfl⟩
  exact ⟨nofun, hfails,
    failure_reported none missingFiles () [.start] .gather nofun _ _ hfails⟩

/-- Both families fail, with one message, in the first gather, and no event of the run names the
second one. -/
theorem second_failure_unnamed :
    let p : PollingLoop := {}
    let reached := p.afterCalls missingFiles () [.start]
    reached.1.Fails missingFiles () .memory (.file .notFound) ∧
      reached.1.Fails missingFiles () .processor (.file .notFound) ∧
      (p.afterCalls missingFiles () [.start, .gather]).2.2 =
        [familyFailed .memory (.file .notFound)] ∧
      familyFailed .processor (.file .notFound) ∉
        (p.afterCalls missingFiles () [.start, .gather]).2.2 := by
  intro p reached
  have hlog : (p.afterCalls missingFiles () [.start, .gather]).2.2 =
      [familyFailed .memory (.file .notFound)] := by
    decide +kernel
  refine ⟨⟨.ofIds (.single "a") none, rfl, rfl, rfl⟩, ⟨.ofIds (.single "a") none, rfl, rfl, rfl⟩,
    hlog, ?_⟩
  rw [hlog, List.mem_singleton]
  decide +kernel

end PollingLoop

end HostGauge
