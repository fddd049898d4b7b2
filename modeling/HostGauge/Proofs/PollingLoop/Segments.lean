import HostGauge.PollingLoop
import Mathlib.Data.List.Basic

/-!
One gather, family by family. What a family comes to depends on the loop through the tracker
alone, and only for the processor; the other parts of the loop decide about the log. So a batch
is the concatenation of segments that are all determined by the loop the gather started from, and
the segment of a family is found again in the batch by its subject.
-/
namespace HostGauge

/-- The subject of the tuples of a family. -/
def Family.subject : Family → String
  | liveness => "Computer"
  | memory => "Memory"
  | processor => "Processor"
  | logicalDisks => "LogicalDisk"
  | network => "Network"

theorem Family.subject_injective : Function.Injective Family.subject := by
  intro a b h
  cases a <;> cases b <;> first | rfl | simp [subject] at h

namespace CpuTracker

/-- The tracker after an answer for the uptime. -/
def next (t : CpuTracker Float) : Except Fault (CpuTimes Float) → CpuTracker Float
  | .error _ => t
  | .ok current => (t.advance current).2

end CpuTracker

namespace PollingLoop

variable {σ : Type} {p q : PollingLoop} {f : MetricFactory} {sample : Sample} {family : Family}

/-! ### What a family leaves of the loop -/

theorem cpuCount_eq (count : Timed Nat) :
    (p.cpuCount count).1 = count.answer.toOption ∧
      (p.cpuCount count).2.1.tracker = p.tracker ∧
      (p.cpuCount count).2.1.factory = p.factory := by
  unfold cpuCount
  cases count.answer <;> exact ⟨rfl, rfl, rfl⟩

/-- The tuples of a processor interval, from what they are made of. -/
def processorTuples (f : MetricFactory) (tracker : CpuTracker Float) (cpus : Option Nat)
    (reading : Timed (CpuTimes Float)) : Except Fault Batch :=
  reading.answer.bind fun current =>
    (tracker.advance current).1.bind fun interval =>
      (Utilization.percent interval cpus).map fun percent =>
        f.processorTuples percent cpus reading.time.utc

theorem processor_eq (cpus : Option Nat) (reading : Timed (CpuTimes Float)) :
    (p.processor f cpus reading).1 = processorTuples f p.tracker cpus reading ∧
      (p.processor f cpus reading).2.tracker = p.tracker.next reading.answer ∧
      (p.processor f cpus reading).2.factory = p.factory := by
  cases hanswer : reading.answer with
  | error fault =>
      simp only [processor, processorTuples, hanswer, CpuTracker.next, Except.bind, and_self]
  | ok current =>
      cases hprevious : p.tracker.previous <;>
        simp only [processor, processorTuples, hanswer, CpuTracker.next, CpuTracker.advance,
          hprevious, Except.bind, and_self]

theorem collect_eq (p : PollingLoop) (f : MetricFactory) (sample : Sample) (family : Family) :
    (p.collect f sample family).2.1.tracker =
        (if family = .processor then p.tracker.next sample.cpuTimes.answer else p.tracker) ∧
      (p.collect f sample family).2.1.factory = p.factory := by
  cases family with
  | processor =>
      obtain ⟨-, htracker, hfactory⟩ := cpuCount_eq (p := p) sample.cpuCount
      obtain ⟨-, htracker', hfactory'⟩ := processor_eq (p := (p.cpuCount sample.cpuCount).2.1)
        (f := f) (p.cpuCount sample.cpuCount).1 sample.cpuTimes
      exact ⟨htracker'.trans (by rw [htracker, if_pos rfl]), hfactory'.trans hfactory⟩
  | _ => exact ⟨rfl, rfl⟩

/-- The segment that an answer makes: its tuples, or none where there is a fault. -/
def tuplesOf : Except Fault Batch → Batch
  | .ok tuples => tuples
  | .error _ => []

/-- The segment of a family, for the loop the family is collected by. -/
def segment (p : PollingLoop) (f : MetricFactory) (sample : Sample) (family : Family) : Batch :=
  tuplesOf (p.collect f sample family).1

theorem gatherFamily_eq (p : PollingLoop) (f : MetricFactory) (sample : Sample)
    (family : Family) :
    (p.gatherFamily f sample family).1 = p.segment f sample family ∧
      (p.gatherFamily f sample family).2.1.tracker =
        (if family = .processor then p.tracker.next sample.cpuTimes.answer else p.tracker) ∧
      (p.gatherFamily f sample family).2.1.factory = p.factory := by
  obtain ⟨htracker, hfactory⟩ := collect_eq p f sample family
  rw [← htracker, ← hfactory]
  unfold gatherFamily segment
  rcases p.collect f sample family with ⟨answer, after, log⟩
  cases answer with
  | ok tuples => exact ⟨rfl, rfl, rfl⟩
  | error fault =>
      dsimp only
      split <;> exact ⟨rfl, rfl, rfl⟩

/-! ### The segments of a batch -/

theorem collect_processor :
    (p.collect f sample .processor).1 =
      processorTuples f p.tracker sample.cpuCount.answer.toOption sample.cpuTimes := by
  obtain ⟨hcount, htracker, -⟩ := cpuCount_eq (p := p) sample.cpuCount
  rw [← hcount, ← htracker]
  exact (processor_eq _ _).1

/-- What the processor comes to depends on the loop through its tracker, the others not at all. -/
theorem collect_congr (h : family = .processor → p.tracker = q.tracker) :
    (p.collect f sample family).1 = (q.collect f sample family).1 := by
  cases family with
  | processor => rw [collect_processor, collect_processor, h rfl]
  | _ => rfl

theorem segment_congr (h : family = .processor → p.tracker = q.tracker) :
    p.segment f sample family = q.segment f sample family :=
  congrArg tuplesOf (collect_congr h)

theorem gatherFamilies_eq (p : PollingLoop) (f : MetricFactory) (sample : Sample)
    {families : List Family} (h : families.Nodup) :
    (p.gatherFamilies f sample families).1 = families.flatMap (p.segment f sample) ∧
      (p.gatherFamilies f sample families).2.1.tracker =
        (if .processor ∈ families then p.tracker.next sample.cpuTimes.answer else p.tracker) ∧
      (p.gatherFamilies f sample families).2.1.factory = p.factory := by
  induction families generalizing p with
  | nil => exact ⟨rfl, rfl, rfl⟩
  | cons family rest ih =>
      obtain ⟨hnew, hrest⟩ := List.nodup_cons.mp h
      obtain ⟨hsegment, htracker, hfactory⟩ := gatherFamily_eq p f sample family
      obtain ⟨ihsegments, ihtracker, ihfactory⟩ := ih (p.gatherFamily f sample family).2.1 hrest
      -- Only the processor moves the tracker, and no later segment reads it.
      have hsame : ∀ other ∈ rest,
          (p.gatherFamily f sample family).2.1.segment f sample other =
            p.segment f sample other := by
        intro other hother
        refine segment_congr fun hprocessor => ?_
        have hne : family ≠ .processor := by
          rintro rfl
          rw [hprocessor] at hother
          exact hnew hother
        rw [htracker, if_neg hne]
      refine ⟨?_, ?_, ihfactory.trans hfactory⟩
      · rw [List.flatMap_cons, ← hsegment, ← List.flatMap_congr hsame, ← ihsegments]
        rfl
      · refine ihtracker.trans ?_
        rw [htracker]
        by_cases hprocessor : family = .processor
        · subst hprocessor
          simp [hnew]
        · simp [hprocessor, Ne.symm hprocessor]

/-! ### Finding a segment by its subject -/

theorem mem_tuplesOf_bind {α : Type} {answer : Except Fault α} {g : α → Except Fault Batch}
    {t : MetricTuple} (h : t ∈ tuplesOf (answer.bind g)) :
    ∃ a, answer = .ok a ∧ t ∈ tuplesOf (g a) := by
  cases answer with
  | error fault => cases h
  | ok a => exact ⟨a, rfl, h⟩

theorem mem_tuplesOf_map {α : Type} {answer : Except Fault α} {g : α → Batch} {t : MetricTuple}
    (h : t ∈ tuplesOf (answer.map g)) : ∃ a, answer = .ok a ∧ t ∈ g a := by
  cases answer with
  | error fault => cases h
  | ok a => exact ⟨a, rfl, h⟩

/-- Every tuple of a segment is made by the factory, with the subject of the family and with tags in
ascending order. -/
theorem exists_tuple_of_mem_segment {t : MetricTuple} (ht : t ∈ p.segment f sample family) :
    ∃ name value pairs time,
      t = f.tuple family.subject name value (Json.membersOf pairs) time := by
  cases family with
  | liveness => exact ⟨_, _, [], _, List.mem_singleton.mp ht⟩
  | memory =>
      obtain ⟨m, -, hm⟩ := mem_tuplesOf_map ht
      exact ⟨_, _, _, _, List.mem_singleton.mp hm⟩
  | processor =>
      rw [segment, collect_processor] at ht
      obtain ⟨current, -, hcurrent⟩ := mem_tuplesOf_bind ht
      obtain ⟨interval, -, hinterval⟩ := mem_tuplesOf_bind hcurrent
      obtain ⟨percent, -, hpercent⟩ := mem_tuplesOf_map hinterval
      exact ⟨_, _, _, _, List.mem_singleton.mp hpercent⟩
  | logicalDisks =>
      obtain ⟨filesystems, -, hfilesystems⟩ := mem_tuplesOf_map ht
      obtain ⟨fs, -, hfs⟩ := List.mem_flatMap.mp hfilesystems
      simp only [MetricFactory.filesystemTuples, List.mem_cons, List.not_mem_nil, or_false] at hfs
      rcases hfs with h | h | h <;> exact ⟨_, _, _, _, h⟩
  | network =>
      obtain ⟨records, -, hrecords⟩ := mem_tuplesOf_map ht
      obtain ⟨record, -, hrecord⟩ := List.mem_flatMap.mp hrecords
      simp only [MetricFactory.trafficTuples] at hrecord
      split at hrecord
      next => cases hrecord
      next =>
        simp only [List.mem_cons, List.not_mem_nil, or_false] at hrecord
        rcases hrecord with h | h <;> exact ⟨_, _, _, _, h⟩

theorem subject_of_mem_segment {t : MetricTuple} (ht : t ∈ p.segment f sample family) :
    t.subject = family.subject := by
  obtain ⟨name, value, pairs, time, rfl⟩ := exists_tuple_of_mem_segment ht
  rfl

/-- The tuples of a batch with the subject of a family are its segment. -/
theorem filter_segments :
    (Family.all.flatMap (p.segment f sample)).filter (·.subject = family.subject) =
      p.segment f sample family := by
  have hown : (p.segment f sample family).filter (·.subject = family.subject) =
      p.segment f sample family := by
    rw [List.filter_eq_self]
    intro t ht
    exact decide_eq_true (subject_of_mem_segment ht)
  have hother : ∀ other, other ≠ family →
      (p.segment f sample other).filter (·.subject = family.subject) = [] := by
    intro other hne
    rw [List.filter_eq_nil_iff]
    intro t ht
    rw [subject_of_mem_segment ht, decide_eq_true_iff]
    exact fun hsubject => hne (Family.subject_injective hsubject)
  rw [List.filter_flatMap]
  cases family <;>
    simp [Family.all, hown, hother]

end PollingLoop

end HostGauge
