import HostGauge.Host.Tree
import HostGauge.Proofs.Collector.Step
import HostGauge.Proofs.Traffic.Records

/-!
What a baseline that fails leaves behind. It has two reads that can fail: the interfaces, before
anything is captured, and the uptime, after everything is. So a failure of the first leaves the
collector as it was, and a failure of the second leaves the whole new baseline in place.
-/
namespace HostGauge

namespace Collector

/-- The interfaces of the host cannot be read. -/
def Unreadable (c : Collector) (host : Host) : Prop :=
  ∃ cause, host.readText (Path.joinAll c.root ["proc", "net", "dev"]) = .error cause

/-- There is no modulus, and everything that needs a baseline says that there is none. -/
structure Unprepared (c : Collector) : Prop where
  modulus : c.modulus? = none
  ids : c.ids = .error .notBaselined
  cpuCount : c.cpuCount = .error .notBaselined
  traffic : ∀ host now, (c.traffic host now).1 = .error .notBaselined
  diskActivity : ∀ host now device, deviceDirectory.isPrefixOf device.toList →
    (c.diskActivity host now device).1 = .error .notBaselined

/-- The collector after some baselines, whether or not they succeed. -/
def afterBaselines (c : Collector) (calls : List (Host × Moment)) : Collector :=
  calls.foldl (fun c call => (c.baseline call.1 call.2).2.1) c

variable {c : Collector} {host : Host} {now : Moment}

theorem unprepared_iff : c.Unprepared ↔ c.captured = none := by
  constructor
  · intro h
    exact Option.map_eq_none_iff.mp h.modulus
  · intro h
    have hrequire : c.require = .error .notBaselined := by simp only [require, h]
    refine ⟨by rw [modulus?, h]; rfl, ?_, ?_, ?_, ?_⟩
    · simp only [ids, hrequire]
    · simp only [cpuCount, hrequire]
      rfl
    · intro host now
      rw [traffic_of_none h]
    · intro host now device hdevice
      simp only [Collector.diskActivity, hdevice, if_true, h]

theorem unreadable_iff (now : Moment) : c.Unreadable host ↔
    ∃ fault, InterfaceSample.readAll host c.root now = .error fault :=
  (InterfaceSample.exists_readAll_eq_error_iff host c.root now).symm

theorem baseline_of_unreadable (h : c.Unreadable host) (now : Moment) :
    (∃ fault, (c.baseline host now).1 = .error fault) ∧ (c.baseline host now).2.1 = c := by
  obtain ⟨fault, hread⟩ := (unreadable_iff now).mp h
  rw [baseline_of_error hread]
  exact ⟨⟨fault, rfl⟩, rfl⟩

/-- Once the interfaces are read the new baseline stays, whatever the uptime comes to. -/
theorem baseline_of_not_unreadable (h : ¬ c.Unreadable host) (now : Moment) :
    (c.baseline host now).1 = CpuTimes.read host c.root ∧
      ∃ interfaces, InterfaceSample.readAll host c.root now = .ok interfaces ∧
        (c.baseline host now).2.1 = c.captureFrom host now interfaces := by
  rw [unreadable_iff now] at h
  cases hread : InterfaceSample.readAll host c.root now with
  | error fault => exact absurd ⟨fault, hread⟩ h
  | ok interfaces =>
      obtain ⟨hanswer, hstate⟩ := baseline_of_ok hread
      exact ⟨hanswer, interfaces, rfl, hstate⟩

theorem captureFrom_eq_self_iff (interfaces : Table InterfaceSample) :
    c.captureFrom host now interfaces = c ↔
      c.captured = some (c.capture host interfaces) ∧ c.disks = (c.disks.baseline host now).1 := by
  constructor
  · intro h
    exact ⟨congrArg captured h.symm, congrArg disks h.symm⟩
  · rintro ⟨hcaptured, hdisks⟩
    rw [captureFrom, ← hcaptured, ← hdisks]

theorem unprepared_baseline_iff :
    (c.baseline host now).2.1.Unprepared ↔ c.Unprepared ∧ c.Unreadable host := by
  by_cases h : c.Unreadable host
  · rw [(baseline_of_unreadable h now).2]
    exact ⟨fun hc => ⟨hc, h⟩, And.left⟩
  · obtain ⟨-, interfaces, -, hstate⟩ := baseline_of_not_unreadable h now
    rw [hstate, unprepared_iff]
    constructor
    · intro hcaptured
      cases hcaptured
    · rintro ⟨-, hunreadable⟩
      exact absurd hunreadable h

theorem root_baseline : (c.baseline host now).2.1.root = c.root := by
  by_cases h : c.Unreadable host
  · rw [(baseline_of_unreadable h now).2]
  · obtain ⟨-, interfaces, -, hstate⟩ := baseline_of_not_unreadable h now
    rw [hstate]
    rfl

/-- Baselines leave a collector unprepared as long as none of them could read the interfaces. -/
theorem unprepared_afterBaselines_iff (calls : List (Host × Moment)) :
    (c.afterBaselines calls).Unprepared ↔
      c.Unprepared ∧ ∀ call ∈ calls, c.Unreadable call.1 := by
  induction calls generalizing c with
  | nil => simp [afterBaselines]
  | cons call rest ih =>
      have hrest : ∀ host, (c.baseline call.1 call.2).2.1.Unreadable host ↔ c.Unreadable host := by
        intro host
        rw [Unreadable, root_baseline, ← Unreadable]
      refine (ih (c := (c.baseline call.1 call.2).2.1)).trans ?_
      simp only [unprepared_baseline_iff, hrest, List.forall_mem_cons, and_assoc]

/-- A baseline fails where the interfaces or the uptime cannot be read. Where it is the uptime
alone, all that a baseline captures has been replaced, so the collector is as it was only if it
held just that before; and one without baseline has become one that has a baseline. -/
theorem failed_baseline (c : Collector) (host : Host) (now : Moment) :
    let after := (c.baseline host now).2.1
    ((∃ fault, (c.baseline host now).1 = .error fault) ↔
        c.Unreadable host ∨ ∃ fault, CpuTimes.read host c.root = .error fault) ∧
      (after = c ↔ c.Unreadable host ∨ ∃ interfaces,
        InterfaceSample.readAll host c.root now = .ok interfaces ∧
          c.captured = some (c.capture host interfaces) ∧
          c.disks = (c.disks.baseline host now).1) ∧
      (¬ c.Unreadable host → ∃ interfaces,
        InterfaceSample.readAll host c.root now = .ok interfaces ∧
          after.captured = some (c.capture host interfaces) ∧
          after.disks = (c.disks.baseline host now).1) ∧
      (after.Unprepared ↔ c.Unprepared ∧ c.Unreadable host) ∧
      ∀ calls, (c.afterBaselines calls).Unprepared ↔
        c.Unprepared ∧ ∀ call ∈ calls, c.Unreadable call.1 := by
  intro after
  by_cases h : c.Unreadable host
  · obtain ⟨hfails, hstate⟩ := baseline_of_unreadable h now
    exact ⟨⟨fun _ => .inl h, fun _ => hfails⟩, ⟨fun _ => .inl h, fun _ => hstate⟩,
      fun hreadable => absurd h hreadable, unprepared_baseline_iff, unprepared_afterBaselines_iff⟩
  · obtain ⟨hanswer, interfaces, hread, hstate⟩ := baseline_of_not_unreadable h now
    have hafter : after = c.captureFrom host now interfaces := hstate
    refine ⟨by rw [hanswer, or_iff_right h], ?_, fun _ => ⟨interfaces, hread, ?_, ?_⟩,
      unprepared_baseline_iff, unprepared_afterBaselines_iff⟩
    · rw [hafter, or_iff_right h, captureFrom_eq_self_iff]
      constructor
      · exact fun hsame => ⟨interfaces, hread, hsame⟩
      · rintro ⟨others, hothers, hsame⟩
        rwa [Except.ok.inj (hread.symm.trans hothers)]
    · rw [hafter]
      rfl
    · rw [hafter]
      rfl

/-- Without the uptime file a baseline fails, yet the collector answers from it. -/
theorem failed_baseline_prepares :
    let host := (Tree.ofTexts [(["proc", "net", "dev"], "a: 1 0 0 0 0 0 0 0 2")]).host
    let c := Collector.ofRoot "/"
    let after := (c.baseline host 0).2.1
    (c.baseline host 0).1 = .error (.file .notFound) ∧ c.Unprepared ∧ ¬ after.Unprepared ∧
      after.modulus? = some .bits64 ∧ after.ids = .error (.unavailable .agentIds) ∧
      (after.traffic host 1).1 = .ok [] := by
  intro host c after
  have hreadable : ¬ c.Unreadable host := by
    rintro ⟨cause, hcause⟩
    have hread : (host.readText (Path.joinAll c.root ["proc", "net", "dev"])).isOk := by
      decide +kernel
    rw [hcause] at hread
    cases hread
  have huptime : host.readText (Path.joinAll c.root ["proc", "uptime"]) = .error .notFound := by
    decide +kernel
  have hmodulus : after.modulus? = some .bits64 := by decide +kernel
  refine ⟨?_, unprepared_iff.mpr rfl, ?_, hmodulus, by decide +kernel, by decide +kernel⟩
  · rw [(baseline_of_not_unreadable hreadable 0).1, CpuTimes.read, huptime]
  · intro h
    rw [h.modulus] at hmodulus
    cases hmodulus

end Collector

end HostGauge
