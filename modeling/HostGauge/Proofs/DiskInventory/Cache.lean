import HostGauge.DiskInventory

/-!
The two caches of the inventory. A query first takes a sample, which needs a sector size and a
legible file of statistics, and only then looks for the sample saved before. Every saved sample
was taken with the sector size that is still cached, so once a device has a sample, its file of
statistics alone decides whether the next query succeeds.
-/
namespace HostGauge

/-- A question for the activity of a device: the host that is read, and when. -/
structure DiskQuery where
  host : Host
  now : Moment
  device : String

namespace DiskSample

/-- The statistics of a device can be read and have seven fields on their first line. -/
def Legible (host : Host) (root device : String) : Prop :=
  ∃ text, host.readText (statPath root device) = .ok text ∧
    7 ≤ (Text.fields ((Text.lines text).headD [])).length

theorem parse_eq_some_of_length (device : String) (size : UInt64) (now : Moment)
    {text : List Char} (h : 7 ≤ (Text.fields ((Text.lines text).headD [])).length) :
    ∃ s, parse device size now text = some s := by
  unfold parse
  match hfields : Text.fields ((Text.lines text).headD []), h with
  | _ :: _ :: _ :: _ :: _ :: _ :: _ :: _, _ => exact ⟨_, rfl⟩

theorem of_parse {device : String} {size : UInt64} {now : Moment} {text : List Char}
    {s : DiskSample} (h : parse device size now text = some s) :
    7 ≤ (Text.fields ((Text.lines text).headD [])).length ∧ s.sectorSize = size := by
  unfold parse at h
  split at h
  next hfields =>
    cases h
    rw [hfields]
    exact ⟨by simp, rfl⟩
  next => cases h

theorem read_of_legible {host : Host} {root device : String} (h : Legible host root device)
    (size : UInt64) (now : Moment) : ∃ s, read host root device size now = .ok s := by
  obtain ⟨text, htext, hlength⟩ := h
  obtain ⟨s, hs⟩ := parse_eq_some_of_length device size now hlength
  exact ⟨s, by simp only [read, htext, hs]⟩

theorem of_read {host : Host} {root device : String} {size : UInt64} {now : Moment}
    {s : DiskSample} (h : read host root device size now = .ok s) :
    Legible host root device ∧ s.sectorSize = size := by
  simp only [read] at h
  split at h
  next => cases h
  next text htext =>
    split at h
    next sample hparse =>
      cases h
      obtain ⟨hlength, hsize⟩ := of_parse hparse
      exact ⟨⟨text, htext, hlength⟩, hsize⟩
    next => cases h

theorem device_of_read {host : Host} {root device : String} {size : UInt64} {now : Moment}
    {s : DiskSample} (h : read host root device size now = .ok s) : s.device = device := by
  simp only [read] at h
  split at h
  next => cases h
  next =>
    split at h
    next hparse =>
      cases h
      unfold parse at hparse
      split at hparse <;> cases hparse
      rfl
    next => cases h

theorem ne_previousSample_of_read {host : Host} {root device : String} {size : UInt64}
    {now : Moment} {fault : Fault} (h : read host root device size now = .error fault)
    (d : String) : fault ≠ .unavailable (.previousSample d) := by
  simp only [read] at h
  split at h
  next =>
    cases h
    simp
  next =>
    split at h
    next => cases h
    next =>
      cases h
      simp

end DiskSample

theorem DeviceList.ne_previousSample_of_read {host : Host} {root : String}
    {devices : List String} {fault : Fault} (h : DeviceList.read host root devices = .error fault)
    (d : String) : fault ≠ .unavailable (.previousSample d) := by
  unfold DeviceList.read Host.runText at h
  split at h
  next =>
    cases h
    simp
  next output _ =>
    unfold Except.bind DeviceList.parse at h
    dsimp only at h
    split at h
    next => cases h
    next =>
      cases h
      simp
  next =>
    cases h
    simp

namespace DiskInventory

/-- The sample that a query takes, before any saved sample matters. -/
def sample (d : DiskInventory) (q : DiskQuery) : Except Fault DiskSample :=
  match d.sectorSize q.host q.device with
  | .error fault => .error fault
  | .ok size => DiskSample.read q.host d.root q.device size q.now

/-- The inventory after a query. -/
def afterQuery (m : CounterModulus) (d : DiskInventory) (q : DiskQuery) : DiskInventory :=
  (d.activity q.host q.now q.device m).2

/-- The answer to a query. -/
def answer (m : CounterModulus) (d : DiskInventory) (q : DiskQuery) : Except Fault DiskActivity :=
  (d.activity q.host q.now q.device m).1

variable {m : CounterModulus} {d : DiskInventory} {q : DiskQuery}

theorem ne_previousSample_of_sample {fault : Fault} (h : d.sample q = .error fault)
    (device : String) : fault ≠ .unavailable (.previousSample device) := by
  unfold sample at h
  split at h
  next cause hsize =>
    cases h
    unfold sectorSize at hsize
    split at hsize
    next => cases hsize
    next =>
      split at hsize
      next hlist =>
        cases hsize
        exact DeviceList.ne_previousSample_of_read hlist device
      next =>
        split at hsize
        next => cases hsize
        next =>
          cases hsize
          simp
  next => exact DiskSample.ne_previousSample_of_read h device

/-! ### The three ways of a query -/

theorem query_unresolved {fault : Fault} (h : d.sectorSize q.host q.device = .error fault) :
    d.answer m q = .error fault ∧ d.afterQuery m q = d := by
  simp only [answer, afterQuery, activity, h, and_self]

theorem query_unread {size : UInt64} {fault : Fault}
    (hsize : d.sectorSize q.host q.device = .ok size)
    (hread : DiskSample.read q.host d.root q.device size q.now = .error fault) :
    d.answer m q = .error fault ∧ d.afterQuery m q = d.saveSize q.device size := by
  have hread' : DiskSample.read q.host (d.saveSize q.device size).root q.device size q.now =
      .error fault := hread
  simp only [answer, afterQuery, activity, hsize, hread', and_self]

theorem query_read {size : UInt64} {s : DiskSample}
    (hsize : d.sectorSize q.host q.device = .ok size)
    (hread : DiskSample.read q.host d.root q.device size q.now = .ok s) :
    d.afterQuery m q = (d.saveSize q.device size).save q.device s ∧
      d.answer m q = match d.saved.find? q.device with
        | some before => .ok (.since s before m)
        | none => .error (.unavailable (.previousSample q.device)) := by
  have hread' : DiskSample.read q.host (d.saveSize q.device size).root q.device size q.now =
      .ok s := hread
  have hsaved : (d.saveSize q.device size).saved.find? q.device = d.saved.find? q.device := rfl
  simp only [answer, afterQuery, activity, hsize, hread', hsaved]
  cases d.saved.find? q.device <;> exact ⟨rfl, rfl⟩

/-- A query that takes no sample fails with that fault; at most it learns a sector size. -/
theorem activity_of_sample_error {fault : Fault} (h : d.sample q = .error fault) :
    d.answer m q = .error fault ∧ (d.afterQuery m q = d ∨
      ∃ size, d.sectorSize q.host q.device = .ok size ∧
        d.afterQuery m q = d.saveSize q.device size) := by
  unfold sample at h
  split at h
  next hsize =>
    cases h
    exact (query_unresolved hsize).imp_right .inl
  next size hsize => exact (query_unread hsize h).imp_right fun hd => .inr ⟨size, hsize, hd⟩

/-- A query that takes a sample saves it with its size, and answers with the activity since the
sample saved before. -/
theorem activity_of_sample_ok {s : DiskSample} (h : d.sample q = .ok s) :
    d.sectorSize q.host q.device = .ok s.sectorSize ∧
      d.afterQuery m q = (d.saveSize q.device s.sectorSize).save q.device s ∧
      d.answer m q = match d.saved.find? q.device with
        | some before => .ok (.since s before m)
        | none => .error (.unavailable (.previousSample q.device)) := by
  unfold sample at h
  split at h
  next => cases h
  next size hsize =>
    obtain ⟨-, rfl⟩ := DiskSample.of_read h
    exact ⟨hsize, query_read hsize h⟩

theorem read_of_sample {s : DiskSample} (h : d.sample q = .ok s) :
    DiskSample.read q.host d.root q.device s.sectorSize q.now = .ok s := by
  unfold sample at h
  split at h
  next => cases h
  next =>
    obtain ⟨-, rfl⟩ := DiskSample.of_read h
    exact h

/-- An activity is that from the saved sample to the one that the query takes. -/
theorem exists_samples_of_answer {a : DiskActivity} (h : d.answer m q = .ok a) :
    ∃ before s, d.saved.find? q.device = some before ∧ d.sample q = .ok s ∧
      a = .since s before m := by
  cases hsample : d.sample q with
  | error fault =>
      rw [(activity_of_sample_error hsample).1] at h
      cases h
  | ok s =>
      rw [(activity_of_sample_ok hsample).2.2] at h
      split at h
      next before hbefore =>
        cases h
        exact ⟨before, s, hbefore, rfl, rfl⟩
      next => cases h

/-- The sector size and the statistics of the device both resolve. -/
def Resolves (d : DiskInventory) (q : DiskQuery) : Prop :=
  (∃ size, d.sectorSize q.host q.device = .ok size) ∧ DiskSample.Legible q.host d.root q.device

theorem sample_isOk_iff : (∃ s, d.sample q = .ok s) ↔ d.Resolves q := by
  unfold sample Resolves
  cases d.sectorSize q.host q.device with
  | error fault => simp
  | ok size =>
      constructor
      · rintro ⟨s, hs⟩
        exact ⟨⟨size, rfl⟩, (DiskSample.of_read hs).1⟩
      · rintro ⟨-, legible⟩
        exact DiskSample.read_of_legible legible size q.now

/-! ### What a query leaves in the caches -/

@[simp] theorem root_afterQuery : (d.afterQuery m q).root = d.root := by
  cases hsample : d.sample q with
  | error fault =>
      rcases (activity_of_sample_error (m := m) hsample).2 with h | ⟨size, -, h⟩ <;> rw [h]
      rfl
  | ok s =>
      rw [(activity_of_sample_ok (m := m) hsample).2.1]
      rfl

theorem find?_saved_afterQuery (device : String) :
    (d.afterQuery m q).saved.find? device =
      if q.device = device then (d.sample q).toOption.or (d.saved.find? device)
      else d.saved.find? device := by
  cases hsample : d.sample q with
  | error fault =>
      rcases (activity_of_sample_error (m := m) hsample).2 with h | ⟨size, -, h⟩ <;> rw [h]
      · simp [Except.toOption]
      · simp [Except.toOption, saveSize]
  | ok s =>
      rw [(activity_of_sample_ok (m := m) hsample).2.1]
      simp [Except.toOption, save, saveSize, @eq_comm _ device]

/-- A saved sample was saved before, or has just been taken. -/
theorem saved_or_taken {device : String} {s : DiskSample}
    (h : (d.afterQuery m q).saved.find? device = some s) :
    d.saved.find? device = some s ∨ q.device = device ∧ d.sample q = .ok s := by
  rw [find?_saved_afterQuery] at h
  split at h
  case isFalse => exact .inl h
  case isTrue hdevice =>
    cases hsample : d.sample q with
    | error fault =>
        rw [hsample] at h
        exact .inl h
    | ok taken =>
        rw [hsample] at h
        cases h
        exact .inr ⟨hdevice, rfl⟩

/-- The sizes that a query leaves: it learns one where it resolves one. -/
theorem sectorSizes_afterQuery (d : DiskInventory) (m : CounterModulus) (q : DiskQuery) :
    (d.afterQuery m q).sectorSizes =
      match d.sectorSize q.host q.device with
      | .error _ => d.sectorSizes
      | .ok size => d.sectorSizes.insert q.device size := by
  cases hsize : d.sectorSize q.host q.device with
  | error fault => rw [(query_unresolved hsize).2]
  | ok size =>
      cases hread : DiskSample.read q.host d.root q.device size q.now with
      | error fault =>
          rw [(query_unread hsize hread).2]
          rfl
      | ok s =>
          rw [(query_read hsize hread).1]
          rfl

theorem sectorSize_of_cached {device : String} {size : UInt64}
    (h : d.sectorSizes.find? device = some size) (host : Host) :
    d.sectorSize host device = .ok size := by
  simp only [sectorSize, h]

theorem find?_saveSize {size known : UInt64} {device : String}
    (hsize : d.sectorSize q.host q.device = .ok size)
    (h : d.sectorSizes.find? device = some known) :
    (d.saveSize q.device size).sectorSizes.find? device = some known := by
  by_cases hdevice : device = q.device
  · rw [hdevice] at h ⊢
    rw [sectorSize_of_cached h] at hsize
    cases hsize
    simp [saveSize]
  · simpa [saveSize, hdevice] using h

/-- A cached sector size stays. -/
theorem find?_sectorSizes_afterQuery {device : String} {known : UInt64}
    (h : d.sectorSizes.find? device = some known) :
    (d.afterQuery m q).sectorSizes.find? device = some known := by
  cases hsample : d.sample q with
  | error fault =>
      rcases (activity_of_sample_error (m := m) hsample).2 with hd | ⟨size, hsize, hd⟩ <;> rw [hd]
      · exact h
      · exact find?_saveSize hsize h
  | ok s =>
      obtain ⟨hsize, hd, -⟩ := activity_of_sample_ok (m := m) hsample
      rw [hd]
      exact find?_saveSize hsize h

/-- Every saved sample was taken with the sector size that is still cached. -/
def Linked (d : DiskInventory) : Prop :=
  ∀ device s, d.saved.find? device = some s → d.sectorSizes.find? device = some s.sectorSize

theorem Linked.afterQuery (h : d.Linked) : (d.afterQuery m q).Linked := by
  intro device s hs
  rcases saved_or_taken hs with hbefore | ⟨hdevice, hsample⟩
  · exact find?_sectorSizes_afterQuery (h device s hbefore)
  · rw [(activity_of_sample_ok (m := m) hsample).2.1, ← hdevice]
    simp [save, saveSize]

/-! ### What a baseline leaves in the caches -/

section Baseline

variable {host : Host} {now : Moment} {device : String}

theorem baseline_of_listed {sizes : Table UInt64} (h : DeviceList.read host d.root [] = .ok sizes) :
    d.baseline host now =
      ({ d with sectorSizes := sizes, saved := sampleAll host d.root now sizes }, []) := by
  simp only [baseline, h]

theorem baseline_of_unlisted {fault : Fault}
    (h : DeviceList.read host d.root [] = .error fault) :
    d.baseline host now = ({ d with saved := {} }, [listingFailed fault]) := by
  simp only [baseline, h]

theorem root_baseline (d : DiskInventory) (host : Host) (now : Moment) :
    (d.baseline host now).1.root = d.root := by
  cases hlist : DeviceList.read host d.root [] with
  | error fault => rw [baseline_of_unlisted hlist]
  | ok sizes => rw [baseline_of_listed hlist]

/-- A sample that a baseline saved is one that it took, of a device that it listed. -/
theorem read_of_saved_baseline {s : DiskSample}
    (h : (d.baseline host now).1.saved.find? device = some s) :
    (d.baseline host now).1.sectorSizes.find? device = some s.sectorSize ∧
      (∃ sizes, DeviceList.read host d.root [] = .ok sizes ∧
        sizes.find? device = some s.sectorSize) ∧
      DiskSample.read host d.root device s.sectorSize now = .ok s := by
  cases hlist : DeviceList.read host d.root [] with
  | error fault =>
      rw [baseline_of_unlisted hlist] at h
      cases h
  | ok sizes =>
      rw [baseline_of_listed hlist] at h ⊢
      obtain ⟨e, he, hsample⟩ := List.mem_filterMap.mp (Table.mem_of_find?_ofList h)
      split at hsample
      next sample hread =>
        cases hsample
        have hsize := (DiskSample.of_read hread).2
        have hlisted := (sizes.mem_entries_iff e.1 e.2).mp he
        rw [hsize]
        exact ⟨hlisted, ⟨sizes, rfl, hlisted⟩, hread⟩
      next => cases hsample

/-- A baseline links the caches, whatever they held before. -/
theorem linked_baseline (d : DiskInventory) (host : Host) (now : Moment) :
    (d.baseline host now).1.Linked :=
  fun _ _ hs => (read_of_saved_baseline hs).1

/-- A baseline takes a sample of every listed device whose statistics are legible. -/
theorem sampled_baseline_iff (d : DiskInventory) (host : Host) (now : Moment) (device : String) :
    (∃ s, (d.baseline host now).1.saved.find? device = some s) ↔
      ∃ sizes size, DeviceList.read host d.root [] = .ok sizes ∧
        sizes.find? device = some size ∧ DiskSample.Legible host d.root device := by
  constructor
  · rintro ⟨s, hs⟩
    obtain ⟨-, ⟨sizes, hlist, hsize⟩, hread⟩ := read_of_saved_baseline hs
    exact ⟨sizes, s.sectorSize, hlist, hsize, (DiskSample.of_read hread).1⟩
  · rintro ⟨sizes, size, hlist, hsize, legible⟩
    obtain ⟨s, hs⟩ := DiskSample.read_of_legible legible size now
    rw [baseline_of_listed hlist]
    refine Table.exists_find?_ofList_of_mem s (List.mem_filterMap.mpr
      ⟨(device, size), (sizes.mem_entries_iff device size).mpr hsize, ?_⟩)
    simp only [hs]

end Baseline

/-- Once a device has a saved sample, its statistics alone decide about the next one. -/
theorem Linked.sample_of_legible (h : d.Linked) {before : DiskSample}
    (hbefore : d.saved.find? q.device = some before)
    (legible : DiskSample.Legible q.host d.root q.device) :
    ∃ s, d.sample q = .ok s ∧ s.sectorSize = before.sectorSize := by
  have hsize := sectorSize_of_cached (h q.device before hbefore) q.host
  obtain ⟨s, hs⟩ := sample_isOk_iff.mpr ⟨⟨_, hsize⟩, legible⟩
  have hsame := (activity_of_sample_ok (m := default) hs).1
  exact ⟨s, hs, (Except.ok.inj (hsize.symm.trans hsame)).symm⟩

end DiskInventory

end HostGauge
