import HostGauge.AgentIds
import HostGauge.BlockDevice
import HostGauge.Calendar
import HostGauge.Collector
import HostGauge.Counter
import HostGauge.CpuTimes
import HostGauge.Decimal.Layout
import HostGauge.Decimal.Reader
import HostGauge.Decimal.Shortest
import HostGauge.DeviceList
import HostGauge.DiskInventory
import HostGauge.Duration
import HostGauge.Engine.Basic
import HostGauge.Engine.Config
import HostGauge.Engine.Worker
import HostGauge.Family
import HostGauge.Fault
import HostGauge.Filesystem
import HostGauge.Host.Basic
import HostGauge.Host.Path
import HostGauge.Host.Reading
import HostGauge.Host.Tree
import HostGauge.Json.Basic
import HostGauge.Json.Document
import HostGauge.Json.Printer
import HostGauge.Json.Reader
import HostGauge.Json.Token
import HostGauge.LogLevel
import HostGauge.Logging
import HostGauge.Memory
import HostGauge.Metric
import HostGauge.Numeral
import HostGauge.PollingLoop
import HostGauge.Probe
import HostGauge.Processor
import HostGauge.Proofs.Collector.Baseline
import HostGauge.Proofs.Collector.Step
import HostGauge.Proofs.Counter
import HostGauge.Proofs.Counter.Checked
import HostGauge.Proofs.DiskInventory.Cache
import HostGauge.Proofs.DiskInventory.Healing
import HostGauge.Proofs.DiskInventory.History
import HostGauge.Proofs.Engine.Stopping
import HostGauge.Proofs.Engine.Threads
import HostGauge.Proofs.PollingLoop.Isolation
import HostGauge.Proofs.PollingLoop.Journal
import HostGauge.Proofs.PollingLoop.Reporting
import HostGauge.Proofs.PollingLoop.Segments
import HostGauge.Proofs.Throttle
import HostGauge.Proofs.Throttle.Spacing
import HostGauge.Proofs.Trace
import HostGauge.Proofs.Traffic.Conservation
import HostGauge.Proofs.Traffic.Records
import HostGauge.Settings.Basic
import HostGauge.Settings.Fields
import HostGauge.Settings.File
import HostGauge.Settings.Json
import HostGauge.Settings.Toml
import HostGauge.Settings.Yaml
import HostGauge.Source
import HostGauge.Table
import HostGauge.Text.Blank
import HostGauge.Text.Line
import HostGauge.Text.Utf8
import HostGauge.Throttle
import HostGauge.Toml.Document
import HostGauge.Toml.Printer
import HostGauge.Toml.Token
import HostGauge.Toml.Value
import HostGauge.Traffic
import HostGauge.Utilization
import HostGauge.Yaml.Cursor
import HostGauge.Yaml.Layout
import HostGauge.Yaml.Node
import HostGauge.Yaml.Printer
import HostGauge.Yaml.Scalar
import HostGauge.Yaml.Schema
import HostGauge.Yaml.Token
import HostGauge.Proofs.PollingLoop.Delivery
import HostGauge.Proofs.PollingLoop.Identity
import HostGauge.Proofs.CpuTracker
import HostGauge.Proofs.PollingLoop.Intervals
import HostGauge.Proofs.DiskInventory.Untimed
import HostGauge.Proofs.DiskInventory.Frame
import HostGauge.Proofs.Traffic.Untimed
import HostGauge.Proofs.Traffic.Order
import HostGauge.Proofs.Collector.Calls
import HostGauge.Proofs.Collector.Reset
import HostGauge.Proofs.Engine.Lifecycle
import HostGauge.Proofs.Engine.Grace
import HostGauge.Proofs.Collector.LastSample
import HostGauge.Proofs.Collector.CounterFields
import HostGauge.Proofs.Host.Path
import HostGauge.Proofs.Collector.Confinement
import HostGauge.Proofs.Settings.Json
import HostGauge.Proofs.Settings.Toml
import HostGauge.Proofs.Settings.Yaml
import HostGauge.Proofs.Metric.Tags
import HostGauge.Proofs.Selection
import HostGauge.Proofs.Text.Field
import HostGauge.Proofs.Text.Line
import HostGauge.Proofs.Filesystem.Lines
import HostGauge.Proofs.Filesystem.FreeSpace
import HostGauge.Proofs.Memory.Lines
import HostGauge.Proofs.Traffic.Rows
import HostGauge.Proofs.AgentIds.Discovery
import HostGauge.Proofs.Collector.Processors
import HostGauge.Proofs.Host.Tree
import HostGauge.Proofs.Traffic.Samples
import HostGauge.Proofs.DeviceList.Record
import HostGauge.Proofs.DeviceList.Entries
import HostGauge.Proofs.Decimal.Special
import HostGauge.Proofs.Utilization
import HostGauge.Proofs.Calendar.Text
