import HostGauge.Host.Reading
import HostGauge.LogLevel
import HostGauge.Settings.Json
import HostGauge.Settings.Toml
import HostGauge.Settings.Yaml

/-!
Settings files. The extension of a file's name says its format; a file with any other extension,
or none, is YAML.
-/
namespace HostGauge.Settings

inductive Format where
  | yaml
  | json
  | toml
  deriving DecidableEq, Repr

namespace Format

def ofExtension : Option String → Format
  | some "json" => json
  | some "toml" => toml
  | _ => yaml

def ofPath (path : String) : Format := ofExtension (Path.extension? path)

end Format

def ofText? : Format → List Char → Option Settings
  | .yaml => ofYaml?
  | .json => ofJson?
  | .toml => ofToml?

/-- The settings as a text of a format. -/
def render (s : Settings) : Format → List Char
  | .yaml => s.toYaml
  | .json => s.toJson
  | .toml => s.toToml

/-- Why no settings were loaded. -/
inductive LoadError where
  | file (cause : FileFault)
  | malformed (format : Format)
  deriving DecidableEq, Repr

/-- The settings of a file, and what is logged. -/
def load (host : Host) (path : String) : Except LoadError Settings × Log :=
  match host.readText path with
  | .error cause => (.error (.file cause), [])
  | .ok text =>
    match ofText? (Format.ofPath path) text with
    | some s => (.ok s, [.info ("Loaded configuration from: " ++ path)])
    | none => (.error (.malformed (Format.ofPath path)), [])

theorem load_of_some {host : Host} {path : String} {text : List Char} {s : Settings}
    (hread : host.readText path = .ok text) (h : ofText? (Format.ofPath path) text = some s) :
    (load host path).1 = .ok s := by
  simp only [load, hread, h]

theorem load_of_none {host : Host} {path : String} {text : List Char}
    (hread : host.readText path = .ok text) (h : ofText? (Format.ofPath path) text = none) :
    (load host path).1 = .error (.malformed (Format.ofPath path)) := by
  simp only [load, hread, h]

end HostGauge.Settings
