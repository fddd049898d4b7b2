import HostGauge.Proofs.PollingLoop.Segments

/-!
Isolation of the families over two runs. The sources of the runs agree on the answers of all
families but one, and on nothing else: neither their states, nor their clocks, nor what the loops
have in their throttle slots. Gather by gather the loops then keep one factory and, unless the
processor is the family in question, one tracker, which is all that the other families see.
-/
namespace HostGauge

/-- Two samples give the same answers, except to the questions of one family. -/
structure Sample.AgreesOff (changed : Family) (a b : Sample) : Prop where
  memory : changed ≠ .memory → a.memory.answer = b.memory.answer
  cpuCount : changed ≠ .processor → a.cpuCount.answer = b.cpuCount.answer
  cpuTimes : changed ≠ .processor → a.cpuTimes.answer = b.cpuTimes.answer
  filesystems : changed ≠ .logicalDisks → a.filesystems.answer = b.filesystems.answer
  traffic : changed ≠ .network → a.traffic.answer = b.traffic.answer

namespace Source

variable {σ : Type}

/-- The source after some samples. -/
def afterSamples (src : Source σ) (s : σ) : ℕ → σ
  | 0 => s
  | n + 1 => (src.sample (src.afterSamples s n)).2

/-- The sample with this number, the first one being zero. -/
def sampleAt (src : Source σ) (s : σ) (n : ℕ) : Sample := (src.sample (src.afterSamples s n)).1

end Source

/-- The tuple without its time. -/
def MetricTuple.untimed (t : MetricTuple) : MetricTuple := { t with collectionTime := "" }

namespace MetricFactory

variable (f : MetricFactory)

theorem untimed_tuple (subject name : String) (value : Float) (tags : Tags) (t u : UtcInstant) :
    (f.tuple subject name value tags t).untimed =
      (f.tuple subject name value tags u).untimed := by
  simp only [tuple, MetricTuple.untimed]

theorem untimed_heartbeat (t u : UtcInstant) :
    (f.heartbeat t).map MetricTuple.untimed = (f.heartbeat u).map MetricTuple.untimed := by
  simp only [heartbeat, List.map_cons, List.map_nil, f.untimed_tuple _ _ _ _ t u]

theorem untimed_memoryTuples (m : Memory) (t u : UtcInstant) :
    (f.memoryTuples m t).map MetricTuple.untimed =
      (f.memoryTuples m u).map MetricTuple.untimed := by
  simp only [memoryTuples, List.map_cons, List.map_nil, f.untimed_tuple _ _ _ _ t u]

theorem untimed_processorTuples (percent : Float) (cpus : Option Nat) (t u : UtcInstant) :
    (f.processorTuples percent cpus t).map MetricTuple.untimed =
      (f.processorTuples percent cpus u).map MetricTuple.untimed := by
  simp only [processorTuples, List.map_cons, List.map_nil, f.untimed_tuple _ _ _ _ t u]

theorem untimed_filesystemTuples (t u : UtcInstant) (fs : Filesystem) :
    (f.filesystemTuples t fs).map MetricTuple.untimed =
      (f.filesystemTuples u fs).map MetricTuple.untimed := by
  simp only [filesystemTuples, List.map_cons, List.map_nil, f.untimed_tuple _ _ _ _ t u]

theorem untimed_trafficTuples (t u : UtcInstant) (record : Traffic) :
    (f.trafficTuples t record).map MetricTuple.untimed =
      (f.trafficTuples u record).map MetricTuple.untimed := by
  simp only [trafficTuples, apply_ite (List.map MetricTuple.untimed), List.map_cons,
    List.map_nil, f.untimed_tuple _ _ _ _ t u]

end MetricFactory

/-- The tuples of a family in a batch, without their times. -/
def Batch.ofFamily (family : Family) (batch : Batch) : Batch :=
  (batch.filter (·.subject = family.subject)).map MetricTuple.untimed

namespace PollingLoop

variable {σ : Type}

/-- The loop and its source after some gathers. -/
def afterGathers (p : PollingLoop) (src : Source σ) (s : σ) : ℕ → PollingLoop × σ
  | 0 => (p, s)
  | n + 1 =>
    let reached := afterGathers p src s n
    let gathered := reached.1.gather src reached.2
    (gathered.2.1, gathered.2.2.1)

/-- The batch of the gather with this number, the first one being zero. -/
def batchAt (p : PollingLoop) (src : Source σ) (s : σ) (n : ℕ) : Batch :=
  ((p.afterGathers src s n).1.gather src (p.afterGathers src s n).2).1

variable {p q : PollingLoop} {f : MetricFactory} {a b : Sample} {changed family : Family}

/-! ### Starting -/

/-- What the answers to a start make of a loop. -/
def startedBy (p : PollingLoop) :
    Except Fault (CpuTimes Float) → Except Fault AgentIds → PollingLoop
  | .error _, _ => p
  | .ok baseline, .error _ => { p with tracker := .startFrom baseline }
  | .ok baseline, .ok ids =>
    { p with tracker := .startFrom baseline, factory := some (.ofIds ids p.computer) }

/-- Loops that are started on the same answers are the same. -/
theorem start_eq (p : PollingLoop) (src : Source σ) (s : σ) :
    (p.start src s).2.1 = p.startedBy (src.baseline s).1 (src.ids (src.baseline s).2.1).1 := by
  unfold start
  rcases src.baseline s with ⟨baseline, t, log⟩
  cases baseline with
  | error fault => rfl
  | ok reading =>
      dsimp only
      rcases src.ids t with ⟨ids, u⟩
      cases ids <;> rfl

/-! ### One gather -/

/-- A loop that was never started gathers nothing, only looks at the clocks and stays so. -/
theorem gather_of_none (h : p.factory = none) (src : Source σ) (s : σ) :
    (p.gather src s).1 = [] ∧ (p.gather src s).2.1.factory = none ∧
      (p.gather src s).2.2.1 = (src.clock s).2 := by
  simp only [gather, h, report]
  exact ⟨trivial, trivial, trivial⟩

theorem gather_eq (h : p.factory = some f) (src : Source σ) (s : σ) :
    (p.gather src s).1 = Family.all.flatMap (p.segment f (src.sample s).1) ∧
      (p.gather src s).2.1.factory = some f ∧
      (p.gather src s).2.1.tracker = p.tracker.next (src.sample s).1.cpuTimes.answer ∧
      (p.gather src s).2.2.1 = (src.sample s).2 := by
  obtain ⟨hsegments, htracker, hfactory⟩ :=
    gatherFamilies_eq p f (src.sample s).1 (show Family.all.Nodup by decide)
  rw [if_pos (by decide)] at htracker
  simp only [gather, h]
  exact ⟨hsegments, hfactory.trans h, htracker, trivial⟩

/-- A segment is made from the answers of its family, and from the tracker for the processor. -/
theorem untimed_segment (agree : a.AgreesOff changed b) (hne : family ≠ changed)
    (htracker : family = .processor → p.tracker = q.tracker) :
    (p.segment f a family).map MetricTuple.untimed =
      (q.segment f b family).map MetricTuple.untimed := by
  cases family with
  | liveness => exact f.untimed_heartbeat _ _
  | memory =>
      simp only [segment, collect, agree.memory hne.symm]
      cases b.memory.answer with
      | error fault => simp only [Except.map, tuplesOf]
      | ok m => exact f.untimed_memoryTuples m _ _
  | processor =>
      rw [segment, segment, collect_processor, collect_processor, htracker rfl,
        agree.cpuCount hne.symm, processorTuples, processorTuples, agree.cpuTimes hne.symm]
      cases b.cpuTimes.answer with
      | error fault => simp only [Except.bind, tuplesOf]
      | ok current =>
          simp only [Except.bind]
          cases (q.tracker.advance current).1 with
          | error fault => simp only [tuplesOf]
          | ok interval =>
              simp only
              cases Utilization.percent interval b.cpuCount.answer.toOption with
              | error fault => simp only [Except.map, tuplesOf]
              | ok percent => exact f.untimed_processorTuples percent _ _ _
  | logicalDisks =>
      simp only [segment, collect, agree.filesystems hne.symm]
      cases b.filesystems.answer with
      | error fault => simp only [Except.map, tuplesOf]
      | ok filesystems =>
          simp only [Except.map, tuplesOf, List.map_flatMap]
          exact List.flatMap_congr fun fs _ => f.untimed_filesystemTuples _ _ fs
  | network =>
      simp only [segment, collect, agree.traffic hne.symm]
      cases b.traffic.answer with
      | error fault => simp only [Except.map, tuplesOf]
      | ok records =>
          simp only [Except.map, tuplesOf, List.map_flatMap]
          exact List.flatMap_congr fun record _ => f.untimed_trafficTuples _ _ record

/-! ### Two runs -/

/-- Two loops that the families other than one cannot tell apart. -/
structure Alike (changed : Family) (f : MetricFactory) (p q : PollingLoop) : Prop where
  left : p.factory = some f
  right : q.factory = some f
  tracker : changed ≠ .processor → p.tracker = q.tracker

variable {σ₁ σ₂ : Type} {src₁ : Source σ₁} {src₂ : Source σ₂} {s₁ : σ₁} {s₂ : σ₂}

theorem Alike.gather (h : Alike changed f p q)
    (agree : (src₁.sample s₁).1.AgreesOff changed (src₂.sample s₂).1) :
    Alike changed f (p.gather src₁ s₁).2.1 (q.gather src₂ s₂).2.1 := by
  obtain ⟨-, hleft, htracker₁, -⟩ := gather_eq h.left src₁ s₁
  obtain ⟨-, hright, htracker₂, -⟩ := gather_eq h.right src₂ s₂
  refine ⟨hleft, hright, fun hchanged => ?_⟩
  rw [htracker₁, htracker₂, h.tracker hchanged, agree.cpuTimes hchanged]

theorem Alike.ofFamily_gather (h : Alike changed f p q)
    (agree : (src₁.sample s₁).1.AgreesOff changed (src₂.sample s₂).1) (hne : family ≠ changed) :
    Batch.ofFamily family (p.gather src₁ s₁).1 = Batch.ofFamily family (q.gather src₂ s₂).1 := by
  rw [(gather_eq h.left src₁ s₁).1, (gather_eq h.right src₂ s₂).1, Batch.ofFamily, Batch.ofFamily,
    filter_segments, filter_segments]
  refine untimed_segment agree hne fun hprocessor => h.tracker ?_
  rw [← hprocessor]
  exact hne.symm

/-- A loop that was started stays so, and its source goes from sample to sample. -/
theorem afterGathers_eq (h : p.factory = some f) (src : Source σ) (s : σ) (n : ℕ) :
    (p.afterGathers src s n).1.factory = some f ∧
      (p.afterGathers src s n).2 = src.afterSamples s n := by
  induction n with
  | zero => exact ⟨h, rfl⟩
  | succ n ih =>
      obtain ⟨-, hfactory, -, hsource⟩ := gather_eq ih.1 src (p.afterGathers src s n).2
      refine ⟨hfactory, hsource.trans ?_⟩
      rw [ih.2]
      rfl

theorem sample_afterGathers (h : p.factory = some f) (src : Source σ) (s : σ) (n : ℕ) :
    (src.sample (p.afterGathers src s n).2).1 = src.sampleAt s n := by
  rw [(afterGathers_eq h src s n).2]
  rfl

theorem Alike.afterGathers (h : Alike changed f p q) {n : ℕ}
    (agree : ∀ k < n, (src₁.sampleAt s₁ k).AgreesOff changed (src₂.sampleAt s₂ k)) :
    Alike changed f (p.afterGathers src₁ s₁ n).1 (q.afterGathers src₂ s₂ n).1 := by
  induction n with
  | zero => exact h
  | succ n ih =>
      have hbefore := ih fun k hk => agree k (Nat.lt_succ_of_lt hk)
      refine hbefore.gather ?_
      rw [sample_afterGathers h.left, sample_afterGathers h.right]
      exact agree n (Nat.lt_succ_self n)

/-- Every batch of a loop that was started is the concatenation of the segments of the families,
where those that fail have an empty one, and each is found in the batch by its subject. In two runs
from loops with one factory and one tracker, whose sources agree off one family, the tuples of all
other families are the same. -/
theorem families_isolated (hp : p.factory = some f) (hq : q.factory = some f)
    (htracker : p.tracker = q.tracker) (src₁ : Source σ₁) (s₁ : σ₁) (src₂ : Source σ₂) (s₂ : σ₂)
    (n : ℕ) :
    let reached := (p.afterGathers src₁ s₁ n).1
    let sample := src₁.sampleAt s₁ n
    let segment := reached.segment f sample
    p.batchAt src₁ s₁ n = segment .liveness ++ segment .memory ++ segment .processor ++
        segment .logicalDisks ++ segment .network ∧
      (∀ family, (∃ fault, (reached.collect f sample family).1 = .error fault) →
        segment family = []) ∧
      (∀ family, (p.batchAt src₁ s₁ n).filter (·.subject = family.subject) = segment family) ∧
      ∀ changed, (∀ k ≤ n, (src₁.sampleAt s₁ k).AgreesOff changed (src₂.sampleAt s₂ k)) →
        ∀ family, family ≠ changed →
          Batch.ofFamily family (p.batchAt src₁ s₁ n) =
            Batch.ofFamily family (q.batchAt src₂ s₂ n) := by
  intro reached sample segment
  have hbatch : p.batchAt src₁ s₁ n = Family.all.flatMap segment := by
    rw [batchAt, (gather_eq (afterGathers_eq hp src₁ s₁ n).1 _ _).1, sample_afterGathers hp]
  refine ⟨?_, ?_, fun family => ?_, fun changed agree family hne => ?_⟩
  · rw [hbatch]
    simp only [Family.all, List.flatMap_cons, List.flatMap_nil, List.append_nil, List.append_assoc]
  · rintro family ⟨fault, hfault⟩
    exact congrArg tuplesOf hfault
  · rw [hbatch]
    exact filter_segments
  · have halike : Alike changed f p q := ⟨hp, hq, fun _ => htracker⟩
    have hreached := halike.afterGathers fun k hk => agree k (Nat.le_of_lt hk)
    refine hreached.ofFamily_gather ?_ hne
    rw [sample_afterGathers hp, sample_afterGathers hq]
    exact agree n (Nat.le_refl n)

/-- One run never learns the available memory, the other one does, at another time: their tuples
for the network are the same. -/
theorem families_isolated_off_memory :
    let silent : Source Unit :=
      { baseline := fun _ => (.ok ⟨100.0, 50.0⟩, (), [])
        ids := fun _ => (.ok (.single "a"), ())
        startSample := id
        memory := fun _ => (.error (.file .notFound), ())
        cpuCount := fun _ => (.error (.unavailable .processors), ())
        cpuTimes := fun _ => (.ok ⟨110.0, 52.0⟩, ())
        filesystems := fun _ => (.error (.file .permissionDenied), ())
        traffic := fun _ => (.ok [⟨"a", .ofSeconds 2, 42, 7⟩], ())
        endSample := id
        clock := fun _ => (⟨0, ⟨0, 0⟩⟩, ()) }
    let telling : Source Unit :=
      { silent with
        memory := fun _ => (.ok ⟨1, 2⟩, ())
        clock := fun _ => (⟨5, ⟨9, 0⟩⟩, ()) }
    let p := (({} : PollingLoop).start silent ()).2.1
    let q := (({} : PollingLoop).start telling ()).2.1
    p.factory = some (.ofIds (.single "a") none) ∧ q.factory = p.factory ∧ p.tracker = q.tracker ∧
      (∀ k ≤ 3, (silent.sampleAt () k).AgreesOff .memory (telling.sampleAt () k)) ∧
      Batch.ofFamily .network (p.batchAt silent () 3) =
        Batch.ofFamily .network (q.batchAt telling () 3) := by
  intro silent telling p q
  have hsame : p = q := (start_eq _ silent ()).trans (start_eq _ telling ()).symm
  have hfactory : p.factory = some (.ofIds (.single "a") none) := rfl
  have agree : ∀ k ≤ 3, (silent.sampleAt () k).AgreesOff .memory (telling.sampleAt () k) :=
    fun _ _ => ⟨fun h => absurd rfl h, fun _ => rfl, fun _ => rfl, fun _ => rfl, fun _ => rfl⟩
  refine ⟨hfactory, congrArg factory hsame.symm, congrArg tracker hsame, agree, ?_⟩
  exact (families_isolated hfactory (hsame ▸ hfactory) (congrArg tracker hsame) silent () telling ()
    3).2.2.2 .memory agree .network (by decide)

end PollingLoop

end HostGauge
