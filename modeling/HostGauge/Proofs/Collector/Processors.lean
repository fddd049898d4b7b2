import HostGauge.Host.Tree
import HostGauge.Proofs.Collector.Baseline
import HostGauge.Proofs.Collector.Reset
import HostGauge.Proofs.Processor

/-!
The facts about the processors stay as a baseline found them. A call other than a baseline replaces
nothing of what was captured but the samples of the interfaces, so after any such calls, whatever
the hosts have become, the number is answered alike and all differences are taken with the one
modulus.
-/
namespace HostGauge

namespace Collector

/-- The number is answered so, and every difference since a last sample is taken with this
modulus. -/
structure Uses (c : Collector) (count : Except Fault ℕ) (m : CounterModulus) : Prop where
  modulus : c.modulus? = some m
  count : c.cpuCount = count
  traffic : ∀ host now records, (c.traffic host now).1 = .ok records →
    ∃ b current, c.captured = some b ∧
      InterfaceSample.readAll host c.root now = .ok current ∧
        records = Traffic.between b.interfaces current m
  disk : ∀ host now device a, (c.diskActivity host now device).1 = .ok a →
    ∃ before current, c.disks.saved.find? device = some before ∧
      c.disks.sample ⟨host, now, device⟩ = .ok current ∧ a = .since current before m

/-- The collector has captured this, and the facts in it are these. -/
structure Keeps (c : Collector) (count : Except Fault ℕ) (m : CounterModulus) (b : Baseline) :
    Prop where
  captured : c.captured = some b
  count : b.cpuCount = count
  modulus : b.modulus = m

variable {c : Collector} {host : Host} {now : Moment} {count : Except Fault ℕ} {m : CounterModulus}

/-- A call other than a baseline keeps the facts. -/
theorem exists_keeps_ask {call : Call} (hcall : call.question ≠ .baseline)
    (h : ∃ b, c.Keeps count m b) : ∃ b, (c.ask call).2.Keeps count m b := by
  obtain ⟨b, hb⟩ := h
  rcases ask_cases c call with hc | ⟨_, hquestion, -⟩ | ⟨b', interfaces, -, hb', -, hc⟩ |
    ⟨_, _, -, -, hc⟩
  · rw [hc]
    exact ⟨b, hb⟩
  · exact absurd hquestion hcall
  · rw [hb.captured] at hb'
    cases hb'
    rw [hc]
    exact ⟨{ b with interfaces := interfaces }, rfl, hb.count, hb.modulus⟩
  · rw [hc]
    exact ⟨b, hb.captured, hb.count, hb.modulus⟩

theorem exists_keeps_afterCalls {calls : List Call} (h : ∃ b, c.Keeps count m b)
    (hcalls : ∀ call ∈ calls, call.question ≠ .baseline) :
    ∃ b, (c.afterCalls calls).Keeps count m b := by
  induction calls generalizing c with
  | nil => exact h
  | cons call rest ih =>
      obtain ⟨hcall, hrest⟩ := List.forall_mem_cons.mp hcalls
      exact ih (exists_keeps_ask hcall h) hrest

theorem Keeps.uses {b : Baseline} (h : c.Keeps count m b) : c.Uses count m := by
  obtain ⟨hb, rfl, rfl⟩ := h
  refine ⟨by rw [modulus?, hb]; rfl, by rw [cpuCount, require, hb]; rfl, ?_, ?_⟩
  · intro host now records hrecords
    cases hread : InterfaceSample.readAll host c.root now with
    | error fault =>
        rw [traffic_of_error hb hread] at hrecords
        cases hrecords
    | ok current =>
        rw [traffic_of_ok hb hread] at hrecords
        cases hrecords
        exact ⟨b, current, hb, rfl, rfl⟩
  · intro host now device a ha
    by_cases hdevice : deviceDirectory.isPrefixOf device.toList
    · rw [diskActivity_of_some hb hdevice] at ha
      exact DiskInventory.exists_samples_of_answer ha
    · rw [diskActivity_of_other hdevice] at ha
      cases ha

/-- What is captured is what the two outcomes come to. -/
theorem keeps_captureFrom (c : Collector) (host : Host) (now : Moment)
    (interfaces : Table InterfaceSample) :
    (c.captureFrom host now interfaces).Keeps (ProcessorFacts.read host c.root).count
      (.ofWordWidth (ProcessorFacts.read host c.root).is64Bit) (c.capture host interfaces) :=
  ⟨rfl, rfl, rfl⟩

/-- Utilities never decide whether a baseline succeeds. Once it has read the interfaces, the
processors were counted by the listing alone and the width was found by the summary alone, the
number stays what it was, with the words of the fault where there is none, and all traffic and
activity up to the next baseline are taken with the one modulus. A baseline that cannot read the
interfaces leaves the facts as they were. -/
theorem processor_facts_fixed (c : Collector) (host : Host) (now : Moment) :
    let based := (c.baseline host now).2.1
    let listed := host.run (ProcessorFacts.listing c.root)
    let summarized := host.run (ProcessorFacts.summary c.root)
    (∀ run, (c.baseline { host with run := run } now).1 = (c.baseline host now).1) ∧
      (c.Unreadable host → based = c) ∧
      (¬ c.Unreadable host → ∃ count m,
        Counts (ProcessorFacts.listing c.root).path listed count ∧
          (m = .bits32 ↔ summarized.ListsNarrow) ∧
          (∀ other later, ¬ c.Unreadable other →
            (other.run (ProcessorFacts.listing c.root) = listed →
              (c.baseline other later).2.1.cpuCount = count) ∧
            (other.run (ProcessorFacts.summary c.root) = summarized →
              (c.baseline other later).2.1.modulus? = some m)) ∧
          ∀ calls, (∀ call ∈ calls, call.question ≠ .baseline) →
            (based.afterCalls calls).Uses count m) := by
  intro based listed summarized
  refine ⟨?_, ?_, ?_⟩
  · intro run
    by_cases h : c.Unreadable host
    · obtain ⟨fault, hread⟩ := (unreadable_iff now).mp h
      have hread' : InterfaceSample.readAll { host with run := run } c.root now = .error fault :=
        hread
      rw [baseline_of_error hread, baseline_of_error hread']
    · have h' : ¬ c.Unreadable { host with run := run } := h
      rw [(baseline_of_not_unreadable h now).1, (baseline_of_not_unreadable h' now).1]
      rfl
  · intro h
    exact (baseline_of_unreadable h now).2
  · intro h
    obtain ⟨-, interfaces, -, hbased⟩ := baseline_of_not_unreadable h now
    refine ⟨(ProcessorFacts.read host c.root).count,
      .ofWordWidth (ProcessorFacts.read host c.root).is64Bit,
      ProcessorFacts.counts_count host c.root, ?_, ?_, ?_⟩
    · rw [← ProcessorFacts.not_is64Bit_iff]
      cases (ProcessorFacts.read host c.root).is64Bit <;> decide
    · intro other later hother
      obtain ⟨-, interfaces', -, hstate⟩ := baseline_of_not_unreadable hother later
      have huses := (keeps_captureFrom c other later interfaces').uses
      rw [hstate, huses.count, huses.modulus]
      constructor
      · intro hlisted
        exact ProcessorFacts.count_congr hlisted
      · intro hsummarized
        rw [ProcessorFacts.is64Bit_congr hsummarized]
    · intro calls hcalls
      have hkept : ∃ b, based.Keeps (ProcessorFacts.read host c.root).count
          (.ofWordWidth (ProcessorFacts.read host c.root).is64Bit) b := by
        refine ⟨c.capture host interfaces, ?_⟩
        have hstate : based = c.captureFrom host now interfaces := hbased
        rw [hstate]
        exact keeps_captureFrom c host now interfaces
      obtain ⟨b, hb⟩ := exists_keeps_afterCalls hkept hcalls
      exact hb.uses

/-- A listing that fails, a summary of 32 bits, and later a host with no files. -/
theorem processor_facts_fixed_narrow :
    let failed : Outcome := .ended (.code 1) []
    let narrow : Outcome := .ended (.code 0) "CPU op-mode(s): 32-bit\n".toUTF8.toList
    let host : Host :=
      { (Tree.ofTexts [(["proc", "net", "dev"], "a: 1 0 0 0 0 0 0 0 2")]).host with
        run := fun command => if command.arguments = ["-p"] then failed else narrow }
    let calls : List Call := [⟨host, 1, .traffic⟩, ⟨(Tree.ofTexts []).host, 2, .cpuCount⟩]
    ¬ (ofRoot "/").Unreadable host ∧ (∀ call ∈ calls, call.question ≠ .baseline) ∧
      narrow.ListsNarrow ∧ ∃ count, Counts "/usr/bin/lscpu" failed count ∧
        ((((ofRoot "/").baseline host 0).2.1).afterCalls calls).Uses count .bits32 := by
  intro failed narrow host calls
  have readable : ¬ (ofRoot "/").Unreadable host := by
    rintro ⟨cause, hread⟩
    have hok : (host.readText "/proc/net/dev").isOk := by decide +kernel
    rw [show host.readText "/proc/net/dev" = .error cause from hread] at hok
    cases hok
  have others : ∀ call ∈ calls, call.question ≠ .baseline := by decide +kernel
  have hnarrow : narrow.ListsNarrow :=
    (ProcessorFacts.not_is64Bit_iff host "/").mp (by decide +kernel)
  obtain ⟨count, m, hcounts, hwidth, -, huses⟩ :=
    (processor_facts_fixed (ofRoot "/") host 0).2.2 readable
  have hm : m = .bits32 := hwidth.mpr hnarrow
  have hbased := huses calls others
  rw [hm] at hbased
  exact ⟨readable, others, hnarrow, count, hcounts, hbased⟩

end Collector

end HostGauge
