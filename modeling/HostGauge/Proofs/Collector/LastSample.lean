import HostGauge.Proofs.Collector.Reset

/-!
Which call took the samples that a collector keeps. Whether a call renews a sample can be told from
the call alone: a baseline renews all of them where it can read the interfaces, a call for the
traffic renews those of the interfaces where it can read them, and a call for a device renews its
sample where its statistics are legible. What is kept was taken by the last call that renews it.
-/
namespace HostGauge

theorem InterfaceSample.exists_readAll_eq_ok_iff (host : Host) (root : String) (now : Moment) :
    (∃ interfaces, readAll host root now = .ok interfaces) ↔
      ∃ text, host.readText (Path.joinAll root ["proc", "net", "dev"]) = .ok text := by
  cases hread : host.readText (Path.joinAll root ["proc", "net", "dev"]) with
  | error cause => simp only [readAll, hread, reduceCtorEq, exists_false]
  | ok text => simp only [readAll, hread, Except.ok.injEq, exists_eq']

/-- A legible device that has a sample is sampled again, and one that is not legible is not. -/
theorem DiskInventory.Linked.saved_afterQuery {d : DiskInventory} (h : d.Linked)
    {m : CounterModulus} {q : DiskQuery} {s : DiskSample}
    (hs : (d.afterQuery m q).saved.find? q.device = some s) :
    (DiskSample.Legible q.host d.root q.device ∧
      DiskSample.read q.host d.root q.device s.sectorSize q.now = .ok s) ∨
    (¬ DiskSample.Legible q.host d.root q.device ∧ d.saved.find? q.device = some s) := by
  rw [find?_saved_afterQuery, if_pos rfl] at hs
  cases hsample : d.sample q with
  | ok taken =>
      rw [hsample] at hs
      cases hs
      exact .inl ⟨(sample_isOk_iff.mp ⟨s, hsample⟩).2, read_of_sample hsample⟩
  | error fault =>
      rw [hsample] at hs
      refine .inr ⟨fun legible => ?_, hs⟩
      obtain ⟨taken, htaken, -⟩ := h.sample_of_legible hs legible
      rw [hsample] at htaken
      cases htaken

namespace Collector

/-- The last of the calls with a property. -/
def LastOf (P : Call → Prop) (history : List Call) (call : Call) : Prop :=
  ∃ earlier later, history = earlier ++ call :: later ∧ P call ∧ ∀ other ∈ later, ¬ P other

/-- The table of interfaces can be read. -/
def Call.ReadsInterfaces (call : Call) (root : String) : Prop :=
  ∃ text, call.host.readText (Path.joinAll root ["proc", "net", "dev"]) = .ok text

def Call.RenewsInterfaces (call : Call) (root : String) : Prop :=
  call.SamplesInterfaces ∧ call.ReadsInterfaces root

def Call.RenewsDisk (call : Call) (root device : String) : Prop :=
  (call.question = .baseline ∧ call.ReadsInterfaces root) ∨
    (call.question = .diskActivity device ∧ DiskSample.Legible call.host root device)

/-- The collector and its inventory read below this root, the caches are linked, and before the
first baseline there is no sample. -/
structure Grounded (c : Collector) (root : String) : Prop where
  rooted : c.root = root
  diskRooted : c.disks.root = root
  linked : c.disks.Linked
  unsampled : c.captured = none → c.disks.saved = {}

/-- Each sample that is kept was taken by the last of these calls that renews it. Paths outside the
directory of devices are left out: they may be listed, but a collector is never asked for them. -/
structure Renewed (c : Collector) (root : String) (history : List Call) : Prop
    extends Grounded c root where
  interfaces : ∀ b, c.captured = some b →
    ∃ call, LastOf (·.RenewsInterfaces root) history call ∧
      InterfaceSample.readAll call.host root call.now = .ok b.interfaces
  disk : ∀ device s, deviceDirectory.isPrefixOf device.toList →
    c.disks.saved.find? device = some s →
      ∃ call, LastOf (·.RenewsDisk root device) history call ∧
        DiskSample.read call.host root device s.sectorSize call.now = .ok s

variable {P : Call → Prop} {history : List Call} {call : Call} {c : Collector} {root : String}

theorem lastOf_concat (history : List Call) (h : P call) : LastOf P (history ++ [call]) call :=
  ⟨history, [], rfl, h, List.forall_mem_nil _⟩

theorem LastOf.concat (h : LastOf P history call) {next : Call} (hnext : ¬ P next) :
    LastOf P (history ++ [next]) call := by
  obtain ⟨earlier, later, rfl, hcall, hlater⟩ := h
  refine ⟨earlier, later ++ [next], by simp, hcall, ?_⟩
  rw [List.forall_mem_append, List.forall_mem_singleton]
  exact ⟨hlater, hnext⟩

/-! ### What a call renews -/

theorem readsInterfaces_of_ok {interfaces : Table InterfaceSample}
    (h : InterfaceSample.readAll call.host root call.now = .ok interfaces) :
    call.ReadsInterfaces root :=
  (InterfaceSample.exists_readAll_eq_ok_iff call.host root call.now).mp ⟨interfaces, h⟩

theorem not_readsInterfaces_of_error {fault : Fault}
    (h : InterfaceSample.readAll call.host root call.now = .error fault) :
    ¬ call.ReadsInterfaces root := by
  intro hreads
  obtain ⟨interfaces, hok⟩ :=
    (InterfaceSample.exists_readAll_eq_ok_iff call.host root call.now).mpr hreads
  rw [h] at hok
  cases hok

theorem not_renewsInterfaces (hbaseline : call.question ≠ .baseline)
    (htraffic : call.question ≠ .traffic) : ¬ call.RenewsInterfaces root :=
  fun h => h.1.elim hbaseline htraffic

theorem not_renewsDisk {device : String} (hbaseline : call.question ≠ .baseline)
    (hdevice : call.question ≠ .diskActivity device) : ¬ call.RenewsDisk root device :=
  fun h => h.elim (fun h => hbaseline h.1) fun h => hdevice h.1

/-- After a call the samples of the interfaces are new, or those from before. -/
theorem interfaces_ask {b : Baseline} (h : (c.ask call).2.captured = some b) :
    (call.RenewsInterfaces c.root ∧
      InterfaceSample.readAll call.host c.root call.now = .ok b.interfaces) ∨
    (¬ call.RenewsInterfaces c.root ∧
      ∃ before, c.captured = some before ∧ before.interfaces = b.interfaces) := by
  obtain ⟨host, now, question⟩ := call
  cases question with
  | baseline =>
      cases hread : InterfaceSample.readAll host c.root now with
      | error fault =>
          simp only [ask, baseline_of_error hread] at h
          exact .inr ⟨fun hrenews => not_readsInterfaces_of_error hread hrenews.2, b, h, rfl⟩
      | ok interfaces =>
          simp only [ask, (baseline_of_ok hread).2] at h
          cases h
          exact .inl ⟨⟨.inl rfl, readsInterfaces_of_ok hread⟩, rfl⟩
  | traffic =>
      cases hb : c.captured with
      | none =>
          simp only [ask, traffic_of_none hb, hb] at h
          cases h
      | some before =>
          cases hread : InterfaceSample.readAll host c.root now with
          | error fault =>
              simp only [ask, traffic_of_error hb hread, hb] at h
              cases h
              exact .inr ⟨fun hrenews => not_readsInterfaces_of_error hread hrenews.2, b, rfl, rfl⟩
          | ok interfaces =>
              simp only [ask, traffic_of_ok hb hread] at h
              cases h
              exact .inl ⟨⟨.inr rfl, readsInterfaces_of_ok hread⟩, rfl⟩
  | diskActivity device =>
      have hkept : (c.ask ⟨host, now, .diskActivity device⟩).2.captured = c.captured := by
        by_cases hdevice : deviceDirectory.isPrefixOf device.toList
        · cases hb : c.captured with
          | none => simp only [ask, Collector.diskActivity, if_pos hdevice, hb]
          | some before => simp only [ask, diskActivity_of_some hb hdevice, hb]
        · simp only [ask, diskActivity_of_other hdevice]
      rw [hkept] at h
      exact .inr ⟨not_renewsInterfaces Question.noConfusion Question.noConfusion, b, h, rfl⟩
  | _ => exact .inr ⟨not_renewsInterfaces Question.noConfusion Question.noConfusion, b, h, rfl⟩

/-- After a call the sample of a device is new, or the one from before. -/
theorem disk_ask (h : c.Grounded root) {device : String} {s : DiskSample}
    (hdevice : deviceDirectory.isPrefixOf device.toList)
    (hs : (c.ask call).2.disks.saved.find? device = some s) :
    (call.RenewsDisk root device ∧
      DiskSample.read call.host root device s.sectorSize call.now = .ok s) ∨
    (¬ call.RenewsDisk root device ∧ c.disks.saved.find? device = some s) := by
  obtain ⟨host, now, question⟩ := call
  cases question with
  | baseline =>
      cases hread : InterfaceSample.readAll host c.root now with
      | error fault =>
          simp only [ask, baseline_of_error hread] at hs
          rw [h.rooted] at hread
          refine .inr ⟨?_, hs⟩
          rintro (⟨-, hreads⟩ | ⟨hother, -⟩)
          · exact not_readsInterfaces_of_error hread hreads
          · cases hother
      | ok interfaces =>
          simp only [ask, (baseline_of_ok hread).2] at hs
          have hsample := (DiskInventory.read_of_saved_baseline hs).2.2
          rw [h.diskRooted] at hsample
          rw [h.rooted] at hread
          exact .inl ⟨.inl ⟨rfl, readsInterfaces_of_ok hread⟩, hsample⟩
  | traffic =>
      have hkept : (c.ask ⟨host, now, .traffic⟩).2.disks = c.disks := by
        unfold ask Collector.traffic
        cases c.captured with
        | none => rfl
        | some b => cases InterfaceSample.readAll host c.root now <;> rfl
      rw [hkept] at hs
      exact .inr ⟨not_renewsDisk Question.noConfusion Question.noConfusion, hs⟩
  | diskActivity asked =>
      cases hb : c.captured with
      | none =>
          have hkept : (c.ask ⟨host, now, .diskActivity asked⟩).2 = c := by
            by_cases hasked : deviceDirectory.isPrefixOf asked.toList
            · simp only [ask, Collector.diskActivity, if_pos hasked, hb]
            · simp only [ask, diskActivity_of_other hasked]
          rw [hkept, h.unsampled hb] at hs
          cases hs
      | some b =>
          by_cases hsame : asked = device
          · cases hsame
            simp only [ask, diskActivity_of_some hb hdevice] at hs
            rw [← h.diskRooted]
            refine (h.linked.saved_afterQuery hs).imp ?_ (And.imp_left fun hillegible => ?_)
            · exact fun hlegible => ⟨.inr ⟨rfl, hlegible.1⟩, hlegible.2⟩
            · rintro (⟨hother, -⟩ | ⟨-, hlegible⟩)
              · cases hother
              · exact hillegible hlegible
          · refine .inr ⟨not_renewsDisk Question.noConfusion (by simpa using hsame), ?_⟩
            by_cases hasked : deviceDirectory.isPrefixOf asked.toList
            · simp only [ask, diskActivity_of_some hb hasked] at hs
              exact (DiskInventory.saved_or_taken hs).resolve_right fun hother => hsame hother.1
            · simpa only [ask, diskActivity_of_other hasked] using hs
  | _ => exact .inr ⟨not_renewsDisk Question.noConfusion Question.noConfusion, hs⟩

/-! ### Along a history -/

theorem Grounded.ask (h : c.Grounded root) (call : Call) : (c.ask call).2.Grounded root := by
  rcases ask_cases c call with hc | ⟨interfaces, -, -, hc⟩ | ⟨b, interfaces, -, -, -, hc⟩ |
    ⟨b, device, -, hb, hc⟩ <;> rw [hc]
  · exact h
  · exact ⟨h.rooted, (c.disks.root_baseline call.host call.now).trans h.diskRooted,
      DiskInventory.linked_baseline c.disks call.host call.now, nofun⟩
  · exact ⟨h.rooted, h.diskRooted, h.linked, nofun⟩
  · refine ⟨h.rooted, DiskInventory.root_afterQuery.trans h.diskRooted, h.linked.afterQuery, ?_⟩
    intro hnone
    cases hb.symm.trans hnone

theorem renewed_ofRoot (root : String) : (ofRoot root).Renewed root [] where
  rooted := rfl
  diskRooted := rfl
  linked := nofun
  unsampled := fun _ => rfl
  interfaces := nofun
  disk := nofun

namespace Renewed

theorem ask (h : c.Renewed root history) (call : Call) :
    (c.ask call).2.Renewed root (history ++ [call]) where
  toGrounded := h.toGrounded.ask call
  interfaces := by
    intro b hb
    rcases interfaces_ask hb with ⟨hrenews, hread⟩ | ⟨hkeeps, before, hbefore, hsame⟩
    · rw [h.rooted] at hrenews hread
      exact ⟨call, lastOf_concat history hrenews, hread⟩
    · obtain ⟨last, hlast, hread⟩ := h.interfaces before hbefore
      rw [h.rooted] at hkeeps
      rw [hsame] at hread
      exact ⟨last, hlast.concat hkeeps, hread⟩
  disk := by
    intro device s hdevice hs
    rcases disk_ask h.toGrounded hdevice hs with ⟨hrenews, hread⟩ | ⟨hkeeps, hbefore⟩
    · exact ⟨call, lastOf_concat history hrenews, hread⟩
    · obtain ⟨last, hlast, hread⟩ := h.disk device s hdevice hbefore
      exact ⟨last, hlast.concat hkeeps, hread⟩

theorem afterCalls (h : c.Renewed root history) (later : List Call) :
    (c.afterCalls later).Renewed root (history ++ later) := by
  induction later generalizing c history with
  | nil =>
      rw [List.append_nil]
      exact h
  | cons call rest ih =>
      rw [List.append_cons]
      exact ih (h.ask call)

end Renewed

end Collector

end HostGauge
