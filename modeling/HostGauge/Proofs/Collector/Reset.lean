import HostGauge.Host.Tree
import HostGauge.Proofs.Collector.Calls

/-!
A baseline starts a collector over. Where the devices can be listed nothing is left of what came
before, and where they cannot the known sector sizes are all that is left; in either case every
sample that is used from then on was taken by the baseline or after it.
-/
namespace HostGauge

namespace Collector

def withSizes (c : Collector) (sizes : Table UInt64) : Collector :=
  { c with disks := { c.disks with sectorSizes := sizes } }

def Call.SamplesDisk (call : Call) (device : String) : Prop :=
  call.question = .baseline ∨ call.question = .diskActivity device

def Call.SamplesInterfaces (call : Call) : Prop :=
  call.question = .baseline ∨ call.question = .traffic

/-- The collector and its inventory read below this root, and each sample that they keep was taken
by one of these calls. -/
structure SampledBy (c : Collector) (root : String) (calls : List Call) : Prop where
  rooted : c.root = root
  diskRooted : c.disks.root = root
  disk : ∀ device s, c.disks.saved.find? device = some s →
    ∃ call ∈ calls, call.SamplesDisk device ∧
      DiskSample.read call.host root device s.sectorSize call.now = .ok s
  interfaces : ∀ b, c.captured = some b →
    ∃ call ∈ calls, call.SamplesInterfaces ∧
      InterfaceSample.readAll call.host root call.now = .ok b.interfaces

/-- Activity and traffic are computed from present samples and from samples that one of these calls
took. -/
structure DeltasWithin (c : Collector) (root : String) (calls : List Call) : Prop where
  disk : ∀ host now device a, (c.diskActivity host now device).1 = .ok a →
    ∃ before current m, c.modulus? = some m ∧ a = .since current before m ∧
      DiskSample.read host root device current.sectorSize now = .ok current ∧
      ∃ call ∈ calls, call.SamplesDisk device ∧
        DiskSample.read call.host root device before.sectorSize call.now = .ok before
  traffic : ∀ host now records, (c.traffic host now).1 = .ok records →
    ∃ before current m, c.modulus? = some m ∧ records = Traffic.between before current m ∧
      InterfaceSample.readAll host root now = .ok current ∧
      ∃ call ∈ calls, call.SamplesInterfaces ∧
        InterfaceSample.readAll call.host root call.now = .ok before

variable {c : Collector} {root : String} {calls : List Call} {host : Host} {now : Moment}

/-! ### What a call can do -/

/-- A call keeps the collector, or starts it over, or replaces the samples of the interfaces, or
asks the inventory for a device. -/
theorem ask_cases (c : Collector) (call : Call) :
    (c.ask call).2 = c ∨
      (∃ interfaces, call.question = .baseline ∧
        InterfaceSample.readAll call.host c.root call.now = .ok interfaces ∧
          (c.ask call).2 = c.captureFrom call.host call.now interfaces) ∨
      (∃ b interfaces, call.question = .traffic ∧ c.captured = some b ∧
        InterfaceSample.readAll call.host c.root call.now = .ok interfaces ∧
          (c.ask call).2 = { c with captured := some { b with interfaces := interfaces } }) ∨
      ∃ b device, call.question = .diskActivity device ∧ c.captured = some b ∧
        (c.ask call).2 =
          { c with disks := c.disks.afterQuery b.modulus ⟨call.host, call.now, device⟩ } := by
  obtain ⟨host, now, question⟩ := call
  cases question with
  | baseline =>
      cases hread : InterfaceSample.readAll host c.root now with
      | error fault =>
          refine .inl ?_
          simp only [ask, baseline_of_error hread]
      | ok interfaces => exact .inr (.inl ⟨interfaces, rfl, rfl, (baseline_of_ok hread).2⟩)
  | traffic =>
      cases hb : c.captured with
      | none =>
          refine .inl ?_
          simp only [ask, traffic_of_none hb]
      | some b =>
          cases hread : InterfaceSample.readAll host c.root now with
          | error fault =>
              refine .inl ?_
              simp only [ask, traffic_of_error hb hread]
          | ok current =>
              refine .inr (.inr (.inl ⟨b, current, rfl, rfl, rfl, ?_⟩))
              simp only [ask, traffic_of_ok hb hread]
  | diskActivity device =>
      by_cases hdevice : deviceDirectory.isPrefixOf device.toList
      · cases hb : c.captured with
        | none =>
            refine .inl ?_
            simp only [ask, diskActivity, if_pos hdevice, hb]
        | some b =>
            refine .inr (.inr (.inr ⟨b, device, rfl, rfl, ?_⟩))
            simp only [ask, diskActivity_of_some hb hdevice, hb]
      · refine .inl ?_
        simp only [ask, diskActivity_of_other hdevice]
  | modulus | ids | memory | cpuTimes | cpuCount | filesystems => exact .inl rfl

/-! ### Where the samples come from -/

theorem sampledBy_ofRoot (root : String) : (ofRoot root).SampledBy root [] where
  rooted := rfl
  diskRooted := rfl
  disk := by
    intro device s hs
    cases hs
  interfaces := by
    intro b hb
    cases hb

namespace SampledBy

theorem mono (h : c.SampledBy root calls) {more : List Call} (hmore : calls ⊆ more) :
    c.SampledBy root more where
  rooted := h.rooted
  diskRooted := h.diskRooted
  disk := by
    intro device s hs
    obtain ⟨call, hcall, hsample⟩ := h.disk device s hs
    exact ⟨call, hmore hcall, hsample⟩
  interfaces := by
    intro b hb
    obtain ⟨call, hcall, hsample⟩ := h.interfaces b hb
    exact ⟨call, hmore hcall, hsample⟩

/-- Once started over, a collector keeps samples of the baseline only. -/
theorem captureFrom (h : c.SampledBy root calls) {interfaces : Table InterfaceSample}
    (hread : InterfaceSample.readAll host c.root now = .ok interfaces) :
    (c.captureFrom host now interfaces).SampledBy root [⟨host, now, .baseline⟩] where
  rooted := h.rooted
  diskRooted := (c.disks.root_baseline host now).trans h.diskRooted
  disk := by
    intro device s hs
    have hsample := (DiskInventory.read_of_saved_baseline hs).2.2
    rw [h.diskRooted] at hsample
    exact ⟨_, List.mem_singleton_self _, .inl rfl, hsample⟩
  interfaces := by
    intro b hb
    cases hb
    rw [h.rooted] at hread
    exact ⟨_, List.mem_singleton_self _, .inl rfl, hread⟩

theorem ask (h : c.SampledBy root calls) (call : Call) :
    (c.ask call).2.SampledBy root (calls ++ [call]) := by
  have hkept := h.mono (List.subset_append_left calls [call])
  have hlast : call ∈ calls ++ [call] := by simp
  rcases ask_cases c call with hc | ⟨interfaces, hquestion, hread, hc⟩ |
    ⟨b, interfaces, hquestion, hb, hread, hc⟩ | ⟨b, device, hquestion, hb, hc⟩ <;> rw [hc]
  · exact hkept
  · refine (h.captureFrom hread).mono ?_
    rw [← hquestion]
    exact List.subset_append_right calls [call]
  · refine ⟨hkept.rooted, hkept.diskRooted, hkept.disk, ?_⟩
    intro b hb
    cases hb
    rw [h.rooted] at hread
    exact ⟨call, hlast, .inr hquestion, hread⟩
  · refine ⟨hkept.rooted, ?_, ?_, hkept.interfaces⟩
    · exact DiskInventory.root_afterQuery.trans hkept.diskRooted
    · intro device' s hs
      rcases DiskInventory.saved_or_taken hs with hbefore | ⟨hdevice, hsample⟩
      · exact hkept.disk device' s hbefore
      · have hread := DiskInventory.read_of_sample hsample
        rw [h.diskRooted] at hread
        cases hdevice
        exact ⟨call, hlast, .inr hquestion, hread⟩

theorem afterCalls (h : c.SampledBy root calls) (later : List Call) :
    (c.afterCalls later).SampledBy root (calls ++ later) := by
  induction later generalizing c calls with
  | nil =>
      rw [List.append_nil]
      exact h
  | cons call rest ih =>
      rw [List.append_cons]
      exact ih (h.ask call)

theorem deltasWithin (h : c.SampledBy root calls) : c.DeltasWithin root calls where
  disk := by
    intro host now device a ha
    by_cases hdevice : deviceDirectory.isPrefixOf device.toList
    · cases hb : c.captured with
      | none =>
          simp only [Collector.diskActivity, if_pos hdevice, hb] at ha
          cases ha
      | some b =>
          rw [diskActivity_of_some hb hdevice] at ha
          obtain ⟨before, s, hbefore, hsample, ha⟩ := DiskInventory.exists_samples_of_answer ha
          have hread := DiskInventory.read_of_sample hsample
          rw [h.diskRooted] at hread
          exact ⟨before, s, b.modulus, by rw [modulus?, hb]; rfl, ha, hread,
            h.disk device before hbefore⟩
    · rw [diskActivity_of_other hdevice] at ha
      cases ha
  traffic := by
    intro host now records hrecords
    cases hb : c.captured with
    | none =>
        rw [traffic_of_none hb] at hrecords
        cases hrecords
    | some b =>
        cases hread : InterfaceSample.readAll host c.root now with
        | error fault =>
            rw [traffic_of_error hb hread] at hrecords
            cases hrecords
        | ok current =>
            rw [traffic_of_ok hb hread] at hrecords
            cases hrecords
            rw [h.rooted] at hread
            exact ⟨b.interfaces, current, b.modulus, by rw [modulus?, hb]; rfl, rfl, hread,
              h.interfaces b hb⟩

end SampledBy

/-! ### Starting over -/

theorem SampledBy.captureFrom_of_listed (h : c.SampledBy root calls) {sizes : Table UInt64}
    (hlist : DeviceList.read host root [] = .ok sizes) (now : Moment)
    (interfaces : Table InterfaceSample) :
    c.captureFrom host now interfaces = (ofRoot root).captureFrom host now interfaces := by
  obtain ⟨rfl, hroot, -, -⟩ := h
  have hlist' := hlist
  rw [← hroot] at hlist'
  unfold Collector.captureFrom
  rw [DiskInventory.baseline_of_listed hlist',
    DiskInventory.baseline_of_listed (d := (ofRoot c.root).disks) hlist, hroot]
  rfl

theorem SampledBy.captureFrom_of_unlisted (h : c.SampledBy root calls) {fault : Fault}
    (hlist : DeviceList.read host root [] = .error fault) (now : Moment)
    (interfaces : Table InterfaceSample) :
    c.captureFrom host now interfaces =
        ((ofRoot root).captureFrom host now interfaces).withSizes c.disks.sectorSizes ∧
      (c.captureFrom host now interfaces).disks.saved = {} := by
  obtain ⟨rfl, hroot, -, -⟩ := h
  have hlist' := hlist
  rw [← hroot] at hlist'
  unfold Collector.captureFrom
  rw [DiskInventory.baseline_of_unlisted hlist',
    DiskInventory.baseline_of_unlisted (d := (ofRoot c.root).disks) hlist, hroot]
  exact ⟨rfl, rfl⟩

/-- When a baseline is made matters only for the times. -/
theorem baseline_shifted (c : Collector) (host : Host) (t u : Moment) :
    (c.baseline host t).1 = (c.baseline host u).1 ∧
      (c.baseline host t).2.1.untimed = (c.baseline host u).2.1.untimed := by
  have hsame := (c.baseline_untimed host t).symm.trans (c.baseline_untimed host u)
  obtain ⟨hanswer, hstate⟩ := Prod.mk.inj hsame
  exact ⟨hanswer, congrArg Prod.fst hstate⟩

/-- A baseline that succeeds after any calls answers what it answers from a new collector. Where
the devices are listed it also leaves what it leaves from a new one, up to times when that one is
made at another moment, so that all later calls are answered alike. Where they are not, no sample
of a disk is left, and the known sector sizes stay and are all that may differ. Whatever activity
or traffic is reported later is computed from samples of the baseline and later calls. -/
theorem baseline_resets (root : String) (history : List Call) (host : Host) (now : Moment)
    (started : (((ofRoot root).afterCalls history).baseline host now).1.isOk) :
    let c := (ofRoot root).afterCalls history
    let based := (c.baseline host now).2.1
    let fresh := fun t => (ofRoot root).baseline host t
    (∀ t, (c.baseline host now).1 = (fresh t).1) ∧
      (∀ sizes, DeviceList.read host root [] = .ok sizes →
        based = (fresh now).2.1 ∧ ∀ t, based.untimed = (fresh t).2.1.untimed ∧
          ∀ later later', later.map Call.untimed = later'.map Call.untimed →
            (based.answers later).map Answer.untimed =
              ((fresh t).2.1.answers later').map Answer.untimed) ∧
      (∀ fault, DeviceList.read host root [] = .error fault →
        based.disks.saved = {} ∧ based.disks.sectorSizes = c.disks.sectorSizes ∧
          based = (fresh now).2.1.withSizes c.disks.sectorSizes ∧
          ∀ t, based.untimed = ((fresh t).2.1.withSizes c.disks.sectorSizes).untimed) ∧
      ∀ later, (based.afterCalls later).DeltasWithin root (⟨host, now, .baseline⟩ :: later) := by
  intro c based fresh
  have hsampled : c.SampledBy root ([] ++ history) := (sampledBy_ofRoot root).afterCalls history
  obtain ⟨interfaces, hread, hstate⟩ := captured_of_isOk started
  have hbased : based = c.captureFrom host now interfaces := hstate
  have hread' : InterfaceSample.readAll host (ofRoot root).root now = .ok interfaces := by
    rw [← hread, hsampled.rooted]
    rfl
  obtain ⟨hanswer, -⟩ := baseline_of_ok hread
  obtain ⟨hfreshAnswer, hfreshState⟩ := baseline_of_ok hread'
  have hfresh : (fresh now).2.1 = (ofRoot root).captureFrom host now interfaces := hfreshState
  have hshifted := fun t => baseline_shifted (ofRoot root) host now t
  refine ⟨?_, ?_, ?_, ?_⟩
  · intro t
    rw [hanswer, ← (hshifted t).1, hfreshAnswer, hsampled.rooted]
    rfl
  · intro sizes hlist
    have hsame : based = (fresh now).2.1 := by
      rw [hbased, hfresh, hsampled.captureFrom_of_listed hlist]
    refine ⟨hsame, fun t => ?_⟩
    have huntimed : based.untimed = (fresh t).2.1.untimed := by rw [hsame, (hshifted t).2]
    refine ⟨huntimed, ?_⟩
    intro later later' hlater
    rw [answers_untimed, answers_untimed, huntimed, hlater]
  · intro fault hlist
    obtain ⟨hsizes, hsaved⟩ := hsampled.captureFrom_of_unlisted hlist now interfaces
    have hsame : based = (fresh now).2.1.withSizes c.disks.sectorSizes := by
      rw [hbased, hfresh, hsizes]
    refine ⟨by rw [hbased, hsaved], by rw [hsame]; rfl, hsame, ?_⟩
    intro t
    have hforget : ((fresh now).2.1.withSizes c.disks.sectorSizes).untimed =
        (fresh now).2.1.untimed.withSizes c.disks.sectorSizes := rfl
    rw [hsame, hforget, (hshifted t).2]
    rfl
  · intro later
    rw [hbased]
    exact ((hsampled.captureFrom hread).afterCalls later).deltasWithin

/-- A second baseline that cannot list the devices: the sample goes, its sector size stays. -/
theorem baseline_resets_unlisted :
    let host (outcome : Outcome) : Host :=
      { (Tree.ofTexts [(["proc", "net", "dev"], "a: 1 0 0 0 0 0 0 0 2"),
          (["proc", "uptime"], "1 1"),
          (["sys", "class", "block", "a", "stat"], "1 0 8 0 2 0 16")]).host with
        run := fun _ => outcome }
    let listing : Outcome := .ended (.code 0)
      "\x7b\"blockdevices\": [\x7b\"name\": \"/dev/a\", \"log-sec\": 512\x7d]\x7d".toUTF8.toList
    let gone : Outcome := .notStarted .notFound
    let history : List Call :=
      [⟨host listing, 0, .baseline⟩, ⟨host listing, 1, .diskActivity "/dev/a"⟩]
    let c := (ofRoot "/").afterCalls history
    let based := (c.baseline (host gone) 2).2.1
    (c.baseline (host gone) 2).1.isOk ∧ c.disks.saved.keys = ["/dev/a"] ∧
      based.disks.saved = {} ∧ based.disks.sectorSizes.keys = ["/dev/a"] ∧
      ∀ later, (based.afterCalls later).DeltasWithin "/" (⟨host gone, 2, .baseline⟩ :: later) := by
  intro host listing gone history
  have started : (((ofRoot "/").afterCalls history).baseline (host gone) 2).1.isOk := by
    decide +kernel
  have sampled : ((ofRoot "/").afterCalls history).disks.saved.keys = ["/dev/a"] := by
    decide +kernel
  have known : ((ofRoot "/").afterCalls history).disks.sectorSizes.keys = ["/dev/a"] := by
    decide +kernel
  have unlisted : DeviceList.read (host gone) "/" [] =
      .error (.unavailable (.utilityNotStarted (DeviceList.command "/" []).path .notFound)) := rfl
  have resets := baseline_resets "/" history (host gone) 2 started
  obtain ⟨saved, sizes, -⟩ := resets.2.2.1 _ unlisted
  rw [← sizes] at known
  exact ⟨started, sampled, saved, known, resets.2.2.2⟩

end Collector

end HostGauge
