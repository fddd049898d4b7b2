import HostGauge.Collector

/-!
What one call does to a collector. A baseline and a call for the traffic turn on whether the
interfaces can be sampled: where they cannot, the call fails and the collector stays; where they
can, the new state is written out here once, and later modules reason from these equations.
-/
namespace HostGauge

namespace Collector

variable {c : Collector} {host : Host} {now : Moment}

/-- What a baseline captures of a host whose interfaces have been sampled. -/
def capture (c : Collector) (host : Host) (interfaces : Table InterfaceSample) : Baseline where
  ids := AgentIds.read host c.root
  cpuCount := (ProcessorFacts.read host c.root).count
  modulus := .ofWordWidth (ProcessorFacts.read host c.root).is64Bit
  interfaces := interfaces

/-- The collector once a baseline has captured a host. -/
def captureFrom (c : Collector) (host : Host) (now : Moment)
    (interfaces : Table InterfaceSample) : Collector :=
  { c with
    captured := some (c.capture host interfaces)
    disks := (c.disks.baseline host now).1 }

theorem baseline_of_error {fault : Fault}
    (h : InterfaceSample.readAll host c.root now = .error fault) :
    c.baseline host now = (.error fault, c, []) := by
  simp only [baseline, h]

theorem baseline_of_ok {interfaces : Table InterfaceSample}
    (h : InterfaceSample.readAll host c.root now = .ok interfaces) :
    (c.baseline host now).1 = CpuTimes.read host c.root ∧
      (c.baseline host now).2.1 = c.captureFrom host now interfaces := by
  simp only [baseline, h, captureFrom, capture, and_self]

/-- A baseline that succeeds has sampled the interfaces. -/
theorem captured_of_isOk (h : (c.baseline host now).1.isOk) :
    ∃ interfaces, InterfaceSample.readAll host c.root now = .ok interfaces ∧
      (c.baseline host now).2.1 = c.captureFrom host now interfaces := by
  cases hread : InterfaceSample.readAll host c.root now with
  | error fault =>
      rw [baseline_of_error hread] at h
      cases h
  | ok interfaces => exact ⟨interfaces, rfl, (baseline_of_ok hread).2⟩

theorem traffic_of_error {b : Baseline} (hb : c.captured = some b) {fault : Fault}
    (h : InterfaceSample.readAll host c.root now = .error fault) :
    c.traffic host now = (.error fault, c) := by
  simp only [traffic, hb, h]

theorem traffic_of_ok {b : Baseline} (hb : c.captured = some b)
    {current : Table InterfaceSample} (h : InterfaceSample.readAll host c.root now = .ok current) :
    c.traffic host now = (.ok (Traffic.between b.interfaces current b.modulus),
      { c with captured := some { b with interfaces := current } }) := by
  simp only [traffic, hb, h]

theorem traffic_of_none (hb : c.captured = none) :
    c.traffic host now = (.error .notBaselined, c) := by
  simp only [traffic, hb]

/-- A call for the traffic that fails leaves the collector as it was. -/
theorem traffic_eq_self_of_error {fault : Fault} (h : (c.traffic host now).1 = .error fault) :
    (c.traffic host now).2 = c := by
  cases hb : c.captured with
  | none => rw [traffic_of_none hb]
  | some b =>
      cases hread : InterfaceSample.readAll host c.root now with
      | error fault => rw [traffic_of_error hb hread]
      | ok current =>
          rw [traffic_of_ok hb hread] at h
          cases h

end Collector

end HostGauge
