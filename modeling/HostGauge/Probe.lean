import HostGauge.Collector
import HostGauge.Source

/-!
A collector together with the host it reads and the clocks: the source of a polling loop.
-/
namespace HostGauge

structure Probe where
  collector : Collector
  host : Host
  clock : ClockReading

namespace Probe

def withCollector (p : Probe) (c : Collector) : Probe := { p with collector := c }

def source : Source Probe where
  baseline p :=
    let (answer, c, log) := p.collector.baseline p.host p.clock.moment
    (answer, p.withCollector c, log)
  ids p := (p.collector.ids, p)
  startSample p := p
  memory p := (p.collector.memory p.host, p)
  cpuCount p := (p.collector.cpuCount, p)
  cpuTimes p := (p.collector.cpuTimes p.host, p)
  filesystems p := (p.collector.filesystems p.host, p)
  traffic p :=
    let (answer, c) := p.collector.traffic p.host p.clock.moment
    (answer, p.withCollector c)
  endSample p := p
  clock p := (p.clock, p)

end Probe

end HostGauge
