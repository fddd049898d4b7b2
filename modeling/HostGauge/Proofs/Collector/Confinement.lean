import HostGauge.Host.Tree
import HostGauge.Proofs.Collector.LastSample
import HostGauge.Proofs.Host.Path

/-!
Which paths of a host matter for devices and interfaces, and whether they lie within the directories
meant for them. The names of devices and interfaces are joined as paths: one that is absolute
replaces the root and the directory, and one that goes up may leave them.
-/
namespace HostGauge

variable {host host' : Host} {root device : String}

theorem Host.readText_congr {path : String} (h : host'.read path = host.read path) :
    host'.readText path = host.readText path := by
  unfold readText
  rw [h]

theorem DeviceList.read_congr {devices : List String}
    (hwords : host'.jsonRefusal = host.jsonRefusal)
    (hrun : host'.run (command root devices) = host.run (command root devices)) :
    read host' root devices = read host root devices := by
  unfold read Host.runText
  rw [hrun, hwords]

namespace DiskSample

/-- The directory in which the statistics of the devices are found. -/
def statDirectory (root : String) : String := Path.joinAll root ["sys", "class", "block"]

theorem inside_statPath_iff (root device : String) :
    Path.Inside (statDirectory root) (statPath root device) ↔
      (Path.resolve (statDirectory root)).Admits
        (Path.resolve (Path.join (kernelName device) "stat")) := by
  have hpath : statPath root device =
      Path.join (Path.join (statDirectory root) (kernelName device)) "stat" := by
    simp only [statPath, statDirectory, Path.joinAll, List.foldl_cons, List.foldl_nil]
  have hstat : Path.isAbsolute "stat" = false := by decide
  rw [← Path.inside_join_iff, Path.Inside, Path.Inside, hpath, Path.resolve_join_assoc _ _ hstat]

theorem read_congr (h : host'.read (statPath root device) = host.read (statPath root device))
    (size : UInt64) (now : Moment) :
    read host' root device size now = read host root device size now := by
  simp only [read, Host.readText_congr h]

end DiskSample

namespace DiskInventory

variable {d : DiskInventory}

theorem activity_congr (hwords : host'.jsonRefusal = host.jsonRefusal)
    (hrun : host'.run (DeviceList.command d.root [device]) =
      host.run (DeviceList.command d.root [device]))
    (hread : host'.read (DiskSample.statPath d.root device) =
      host.read (DiskSample.statPath d.root device)) (now : Moment) (m : CounterModulus) :
    d.activity host' now device m = d.activity host now device m := by
  have hsize : d.sectorSize host' device = d.sectorSize host device := by
    unfold sectorSize
    rw [DeviceList.read_congr hwords hrun]
  unfold activity
  rw [hsize]
  cases d.sectorSize host device with
  | error fault => rfl
  | ok size =>
      have hroot : (d.saveSize device size).root = d.root := rfl
      simp only [hroot, DiskSample.read_congr hread]

theorem baseline_congr (hwords : host'.jsonRefusal = host.jsonRefusal)
    (hrun : host'.run (DeviceList.command d.root []) = host.run (DeviceList.command d.root []))
    (hread : ∀ sizes, DeviceList.read host d.root [] = .ok sizes → ∀ device ∈ sizes.keys,
      host'.read (DiskSample.statPath d.root device) =
        host.read (DiskSample.statPath d.root device)) (now : Moment) :
    d.baseline host' now = d.baseline host now := by
  unfold baseline
  rw [DeviceList.read_congr hwords hrun]
  cases hlist : DeviceList.read host d.root [] with
  | error fault => rfl
  | ok sizes =>
      have hsamples : sampleAll host' d.root now sizes = sampleAll host d.root now sizes := by
        unfold sampleAll
        rw [List.filterMap_congr]
        intro e he
        have hkey : e.1 ∈ sizes.keys := List.mem_map_of_mem he
        rw [DiskSample.read_congr (hread sizes hlist e.1 hkey)]
      simp only [hsamples]

end DiskInventory

namespace InterfaceSample

/-- The directory in which the virtual interfaces are listed. -/
def virtualDirectory (root : String) : String :=
  Path.joinAll root ["sys", "devices", "virtual", "net"]

theorem inside_virtualPath_iff (root device : String) :
    Path.Inside (virtualDirectory root) (virtualPath root device) ↔
      (Path.resolve (virtualDirectory root)).Admits (Path.resolve device) := by
  rw [virtualPath, ← virtualDirectory]
  exact Path.inside_join_iff (virtualDirectory root) device

theorem readAll_congr
    (hrows : host'.read (Path.joinAll root ["proc", "net", "dev"]) =
      host.read (Path.joinAll root ["proc", "net", "dev"]))
    (hroutes : host'.read (Path.joinAll root ["proc", "net", "route"]) =
      host.read (Path.joinAll root ["proc", "net", "route"]))
    (hvirtual : ∀ text, host.readText (Path.joinAll root ["proc", "net", "dev"]) = .ok text →
      ∀ row ∈ InterfaceRow.parse text, host'.isPresent (virtualPath root row.device) =
        host.isPresent (virtualPath root row.device)) (now : Moment) :
    readAll host' root now = readAll host root now := by
  have hup : Routes.read host' root = Routes.read host root := by
    unfold Routes.read
    rw [Host.readText_congr hroutes]
  unfold readAll
  rw [hup, Host.readText_congr hrows]
  cases htext : host.readText (Path.joinAll root ["proc", "net", "dev"]) with
  | error cause => rfl
  | ok text =>
      have hrows' : (InterfaceRow.parse text).filter
          (fun row => !host'.isPresent (virtualPath root row.device)) =
          (InterfaceRow.parse text).filter
            fun row => !host.isPresent (virtualPath root row.device) :=
        List.filter_congr fun row hrow => congrArg not (hvirtual text htext row hrow)
      simp only [ofRows, hrows']

end InterfaceSample

namespace Collector

theorem Grounded.diskActivity_congr {c : Collector} (h : c.Grounded root)
    (hwords : host'.jsonRefusal = host.jsonRefusal)
    (hrun : host'.run (DeviceList.command root [device]) =
      host.run (DeviceList.command root [device]))
    (hread : host'.read (DiskSample.statPath root device) =
      host.read (DiskSample.statPath root device)) (now : Moment) :
    c.diskActivity host' now device = c.diskActivity host now device := by
  obtain ⟨-, rfl, -, -⟩ := h
  unfold Collector.diskActivity
  split
  case isTrue => cases c.captured <;> simp only [DiskInventory.activity_congr hwords hrun hread]
  case isFalse => rfl

/-- Of all that can be read below a root, activity depends only on the statistics of the device,
those of the listed devices are all that a baseline of the disks depends on (each besides the
listing, and with one JSON reader), and which interfaces are sampled depends, besides the rows and
the routes, only on whether something is there at the paths for the rows. These paths lie within the
directories meant for them exactly if the names, as ways from there, stay or come back: a name that
descends does, one that goes up comes back only by the names of the directory, and one that is
absolute leads there only if it spells the directory out. -/
theorem confined_iff (root : String) :
    (∀ history device host host' now, host'.jsonRefusal = host.jsonRefusal →
      host'.run (DeviceList.command root [device]) = host.run (DeviceList.command root [device]) →
      host'.read (DiskSample.statPath root device) = host.read (DiskSample.statPath root device) →
      ((ofRoot root).afterCalls history).diskActivity host' now device =
        ((ofRoot root).afterCalls history).diskActivity host now device) ∧
    (∀ d : DiskInventory, d.root = root → ∀ host host' now, host'.jsonRefusal = host.jsonRefusal →
      host'.run (DeviceList.command root []) = host.run (DeviceList.command root []) →
      (∀ sizes, DeviceList.read host root [] = .ok sizes → ∀ device ∈ sizes.keys,
        host'.read (DiskSample.statPath root device) =
          host.read (DiskSample.statPath root device)) →
      d.baseline host' now = d.baseline host now) ∧
    (∀ host host' now,
      (∀ file ∈ ["dev", "route"], host'.read (Path.joinAll root ["proc", "net", file]) =
        host.read (Path.joinAll root ["proc", "net", file])) →
      (∀ text, host.readText (Path.joinAll root ["proc", "net", "dev"]) = .ok text →
        ∀ row ∈ InterfaceRow.parse text,
          host'.isPresent (InterfaceSample.virtualPath root row.device) =
            host.isPresent (InterfaceSample.virtualPath root row.device)) →
      InterfaceSample.readAll host' root now = InterfaceSample.readAll host root now) ∧
    (∀ device, (Path.Inside (DiskSample.statDirectory root) (DiskSample.statPath root device) ↔
        (Path.resolve (DiskSample.statDirectory root)).Admits
          (Path.resolve (Path.join (DiskSample.kernelName device) "stat"))) ∧
      (Path.Descends (DiskSample.kernelName device) →
        Path.Inside (DiskSample.statDirectory root) (DiskSample.statPath root device))) ∧
    ∀ device, (Path.Inside (InterfaceSample.virtualDirectory root)
        (InterfaceSample.virtualPath root device) ↔
        (Path.resolve (InterfaceSample.virtualDirectory root)).Admits (Path.resolve device)) ∧
      (Path.Descends device → Path.Inside (InterfaceSample.virtualDirectory root)
        (InterfaceSample.virtualPath root device)) := by
  refine ⟨?_, ?_, ?_, fun device => ?_, fun device => ?_⟩
  · intro history device host host' now hwords hrun hread
    have hrenewed := (renewed_ofRoot root).afterCalls history
    exact hrenewed.toGrounded.diskActivity_congr hwords hrun hread now
  · rintro d rfl host host' now hwords hrun hread
    exact DiskInventory.baseline_congr hwords hrun hread now
  · intro host host' now hfiles hvirtual
    exact InterfaceSample.readAll_congr (hfiles "dev" (by simp)) (hfiles "route" (by simp))
      hvirtual now
  · have hinside := DiskSample.inside_statPath_iff root device
    have hstat : Path.Descends "stat" := ⟨by decide, by decide⟩
    exact ⟨hinside, fun hname => hinside.mpr ((hname.join hstat).admitted _)⟩
  · have hinside := InterfaceSample.inside_virtualPath_iff root device
    exact ⟨hinside, fun hname => hinside.mpr (hname.admitted _)⟩

/-- Names that pass for devices and interfaces, and lead out of their directories: two devices whose
statistics lie elsewhere, and an interface that counts as virtual because the top is there. -/
theorem names_lead_out :
    let host := (Tree.ofTexts [(["r", "proc", "net", "dev"], "/: 1 0 0 0 0 0 0 0 2")]).host
    (∀ device ∈ ["/devX", "/dev/.."], deviceDirectory.isPrefixOf device.toList ∧
      ¬ Path.Inside (DiskSample.statDirectory "/r") (DiskSample.statPath "/r" device)) ∧
    DiskSample.statPath "/r" "/devX" = "/devX/stat" ∧
    InterfaceRow.parse "/: 1 0 0 0 0 0 0 0 2".toList = [⟨"/", 1, 2⟩] ∧
    InterfaceSample.virtualPath "/r" "/" = "/" ∧
    ¬ Path.Inside (InterfaceSample.virtualDirectory "/r") (InterfaceSample.virtualPath "/r" "/") ∧
    host.isPresent (InterfaceSample.virtualDirectory "/r") = false ∧
    (InterfaceSample.readAll host "/r" 0).toOption.map (·.keys) = some [] := by
  intro host
  exact ⟨by decide +kernel, by decide +kernel, by decide +kernel, by decide +kernel,
    by decide +kernel, by decide +kernel, by decide +kernel⟩

end Collector

end HostGauge
