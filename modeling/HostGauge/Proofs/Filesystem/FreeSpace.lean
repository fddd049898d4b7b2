import HostGauge.Host.Tree
import HostGauge.Probe
import HostGauge.Proofs.Decimal.Rounding
import HostGauge.Proofs.Filesystem.Lines
import HostGauge.Proofs.PollingLoop.Isolation

/-!
What becomes of the records of filesystems. Every record that a host gives has a size other than
zero, so the percentage of free space in a batch is a quotient by a number above zero.
-/
namespace HostGauge

namespace Filesystem

variable {host : Host} {root : String} {records : List Filesystem} {fs : Filesystem}

theorem size_ne_zero_of_readAll (h : readAll host root = .ok records) (hfs : fs ∈ records) :
    fs.size ≠ 0 := by
  unfold readAll at h
  cases htext : host.runText (command root) with
  | error fault =>
      rw [htext] at h
      cases h
  | ok text =>
      rw [htext] at h
      cases h
      exact size_ne_zero_of_mem_parse hfs

end Filesystem

namespace PollingLoop

variable {p : PollingLoop} {probe : Probe} {t : MetricTuple}

/-- The tuples about filesystems in a batch are made from the records of the host. -/
theorem exists_filesystem_of_mem_gather (ht : t ∈ (p.gather Probe.source probe).1)
    (hsubject : t.subject = Family.logicalDisks.subject) :
    ∃ f time records fs, probe.collector.filesystems probe.host = .ok records ∧ fs ∈ records ∧
      t ∈ MetricFactory.filesystemTuples f time fs := by
  cases hfactory : p.factory with
  | none =>
      rw [(gather_of_none hfactory _ _).1] at ht
      exact absurd ht List.not_mem_nil
  | some f =>
      rw [(gather_eq hfactory _ _).1] at ht
      have hsegment : t ∈ p.segment f (Probe.source.sample probe).1 .logicalDisks := by
        rw [← filter_segments]
        exact List.mem_filter.mpr ⟨ht, decide_eq_true hsubject⟩
      obtain ⟨records, hrecords, hmem⟩ := mem_tuplesOf_map hsegment
      obtain ⟨fs, hfs, htuple⟩ := List.mem_flatMap.mp hmem
      exact ⟨f, _, records, fs, hrecords, hfs, htuple⟩

theorem value_of_mem_filesystemTuples {f : MetricFactory} {time : UtcInstant} {fs : Filesystem}
    (ht : t ∈ f.filesystemTuples time fs) (hname : t.name = "FreeSpacePercentage") :
    t.value = 100.0 * fs.free.toFloat / fs.size.toFloat := by
  simp only [MetricFactory.filesystemTuples, List.mem_cons, List.not_mem_nil, or_false] at ht
  rcases ht with rfl | rfl | rfl
  · have hstatus : "Status" = "FreeSpacePercentage" := hname
    exact absurd hstatus (by decide)
  · rfl
  · have hfree : "FreeSpaceMB" = "FreeSpacePercentage" := hname
    exact absurd hfree (by decide)

end PollingLoop

namespace Filesystem

/-- The law of the records of filesystems. A text is read as the records that its lines show, in
their order. Every record of a host has a size other than zero, and every percentage of free space
in a batch is the one of such a record, divided by a number above zero. Records that are written
one to a line are read back. -/
theorem recorded_by_line :
    (∀ text records, parse text = records ↔ Selects Shows (Text.lines text) records) ∧
    (∀ (probe : Probe) (records : List Filesystem),
      (Probe.source.filesystems probe).1 = .ok records → ∀ fs ∈ records, fs.size ≠ 0) ∧
    (∀ (p : PollingLoop) (probe : Probe), ∀ t ∈ (p.gather Probe.source probe).1,
      t.subject = "LogicalDisk" → t.name = "FreeSpacePercentage" →
        ∃ records, (Probe.source.filesystems probe).1 = .ok records ∧
          ∃ fs ∈ records, 0.0 < fs.size.toFloat ∧
            t.value = 100.0 * fs.free.toFloat / fs.size.toFloat) ∧
    ∀ entries, (∀ e ∈ entries, IsType e.1 ∧ e.2.IsWritable) →
      parse (write entries) = entries.map Prod.snd := by
  refine ⟨fun _ _ => parse_eq_iff, ?_, ?_, fun _ => parse_write⟩
  case refine_1 =>
    intro probe records hrecords fs hfs
    exact size_ne_zero_of_readAll hrecords hfs
  case refine_2 =>
    intro p probe t ht hsubject hname
    obtain ⟨f, time, records, fs, hrecords, hfs, htuple⟩ :=
      PollingLoop.exists_filesystem_of_mem_gather ht hsubject
    have hsize := size_ne_zero_of_readAll hrecords hfs
    exact ⟨records, hrecords, fs, hfs, Decimal.zero_lt_toFloat hsize,
      PollingLoop.value_of_mem_filesystemTuples htuple hname⟩

/-- A utility answers with one record among lines that show none; a record of the largest sizes is
written and read back. -/
theorem recorded_by_line_mixed :
    let listing := "Type Filesystem Mounted\next4 /dev/sda1 / 01000 400\next4 /dev/sdb1 /b 0 0\n"
    let tree : Tree := ⟨[(["bin"], .directory),
      (["bin", "df"], .utility [{ output := listing.toUTF8.toList }] true)]⟩
    let probe : Probe := ⟨.ofRoot "/", tree.host, ⟨0, ⟨0, 0⟩⟩⟩
    let largest : Filesystem := ⟨"/dev/md0", "/", 0xFFFFFFFFFFFFFFFF, 0xFFFFFFFFFFFFFFFF⟩
    (∃ t ∈ (({ factory := some (.ofIds (.single "a") none) } : PollingLoop).gather
        Probe.source probe).1,
      ∃ records, (Probe.source.filesystems probe).1 = .ok records ∧
        ∃ fs ∈ records, 0.0 < fs.size.toFloat ∧
          t.value = 100.0 * fs.free.toFloat / fs.size.toFloat) ∧
    parse (write [("ext2".toList, largest)]) = [largest] := by
  intro listing tree probe largest
  refine ⟨?_, ?_⟩
  case refine_1 =>
    have hthird : (({ factory := some (.ofIds (.single "a") none) } : PollingLoop).gather
        Probe.source probe).1[2]?.map (fun t => (t.subject, t.name)) =
          some ("LogicalDisk", "FreeSpacePercentage") := by decide +kernel
    obtain ⟨t, ht, hnames⟩ := Option.map_eq_some_iff.mp hthird
    obtain ⟨hsubject, hname⟩ := Prod.mk.inj hnames
    have hmem := List.mem_of_getElem? ht
    exact ⟨t, hmem, recorded_by_line.2.2.1 _ _ t hmem hsubject hname⟩
  case refine_2 =>
    refine recorded_by_line.2.2.2 _ fun e he => ?_
    rw [List.mem_singleton.mp he]
    exact ⟨.inl rfl, by decide +kernel, by decide, by decide, by decide, by decide⟩

end Filesystem

end HostGauge
