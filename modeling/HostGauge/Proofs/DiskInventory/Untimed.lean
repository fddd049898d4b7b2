import HostGauge.Proofs.DiskInventory.Cache

/-!
Inventories up to the times of their samples. Forgetting the times is a map of inventories that
goes past every call, which then might as well be made at moment zero: no decision of a call
turns on a time, and a time only ever reaches the elapsed time of an activity.
-/
namespace HostGauge

namespace DiskSample

def untimed (s : DiskSample) : DiskSample := { s with time := 0 }

theorem parse_untimed (device : String) (size : UInt64) (now : Moment) (text : List Char) :
    (parse device size now text).map untimed = parse device size 0 text := by
  unfold parse
  split <;> rfl

theorem read_untimed (host : Host) (root device : String) (size : UInt64) (now : Moment) :
    (read host root device size now).map untimed = read host root device size 0 := by
  simp only [read]
  cases host.readText (statPath root device) with
  | error cause => rfl
  | ok text =>
      simp only [← parse_untimed device size now text]
      cases parse device size now text <;> rfl

end DiskSample

namespace DiskActivity

def untimed (a : DiskActivity) : DiskActivity := { a with elapsed := .zero }

end DiskActivity

namespace DiskQuery

def shifted (q : DiskQuery) (now : Moment) : DiskQuery := { q with now := now }

end DiskQuery

namespace DiskInventory

def untimed (d : DiskInventory) : DiskInventory := { d with saved := d.saved.map .untimed }

theorem sampleAll_untimed (host : Host) (root : String) (now : Moment) (sizes : Table UInt64) :
    (sampleAll host root now sizes).map .untimed = sampleAll host root 0 sizes := by
  rw [sampleAll, sampleAll, Table.map_ofList, List.map_filterMap]
  congr 2
  funext e
  simp only [← DiskSample.read_untimed host root e.1 e.2 now]
  cases DiskSample.read host root e.1 e.2 now <;> rfl

theorem baseline_untimed (d : DiskInventory) (host : Host) (now : Moment) :
    d.untimed.baseline host 0 = ((d.baseline host now).1.untimed, (d.baseline host now).2) := by
  have hroot : d.untimed.root = d.root := rfl
  cases hlist : DeviceList.read host d.root [] with
  | error fault =>
      rw [baseline_of_unlisted hlist, baseline_of_unlisted (hroot ▸ hlist)]
      rfl
  | ok sizes =>
      rw [baseline_of_listed hlist, baseline_of_listed (hroot ▸ hlist), hroot,
        ← sampleAll_untimed host d.root now]
      rfl

theorem save_untimed (d : DiskInventory) (device : String) (s : DiskSample) :
    (d.save device s).untimed = d.untimed.save device s.untimed := by
  simp only [untimed, save, Table.map_insert]

/-- A query, whenever it is made, does up to times what it does to the untimed inventory. -/
theorem query_untimed (d : DiskInventory) (m : CounterModulus) (q : DiskQuery) :
    (d.answer m q).map .untimed = d.untimed.answer m (q.shifted 0) ∧
      (d.afterQuery m q).untimed = d.untimed.afterQuery m (q.shifted 0) := by
  cases hsize : d.sectorSize q.host q.device with
  | error fault =>
      obtain ⟨hanswer, hafter⟩ := query_unresolved (m := m) hsize
      obtain ⟨hanswer', hafter'⟩ :=
        query_unresolved (m := m) (d := d.untimed) (q := q.shifted 0) hsize
      rw [hanswer, hafter, hanswer', hafter']
      exact ⟨rfl, rfl⟩
  | ok size =>
      have hread' := DiskSample.read_untimed q.host d.root q.device size q.now
      cases hread : DiskSample.read q.host d.root q.device size q.now with
      | error fault =>
          rw [hread] at hread'
          obtain ⟨hanswer, hafter⟩ := query_unread (m := m) hsize hread
          obtain ⟨hanswer', hafter'⟩ :=
            query_unread (m := m) (d := d.untimed) (q := q.shifted 0) hsize hread'.symm
          rw [hanswer, hafter, hanswer', hafter']
          exact ⟨rfl, rfl⟩
      | ok s =>
          rw [hread] at hread'
          obtain ⟨hafter, hanswer⟩ := query_read (m := m) hsize hread
          obtain ⟨hafter', hanswer'⟩ :=
            query_read (m := m) (d := d.untimed) (q := q.shifted 0) hsize hread'.symm
          -- The answer is the only place where the saved sample, with its time, comes in.
          have hsaved : d.untimed.saved.find? (q.shifted 0).device =
              (d.saved.find? q.device).map .untimed := Table.find?_map _ _ _
          rw [hanswer, hafter, hanswer', hafter', hsaved]
          refine ⟨?_, save_untimed _ _ _⟩
          cases d.saved.find? q.device <;> rfl

end DiskInventory

end HostGauge
