import HostGauge.Settings.Fields
import HostGauge.Toml.Document
import HostGauge.Toml.Printer

/-!
Settings as TOML: pairs of the top table. A missing computer is not written; an interval is
written as the number it is, also where it is too large to be read back.
-/
namespace HostGauge.Settings

def tomlText? : Toml.Value → Option String
  | .string s => some s
  | _ => none

def tomlReader : ValueReader Toml.Value where
  word? v :=
    match v with
    | .integer n => if 0 ≤ n && n < UInt64.size then some (UInt64.ofNat n.toNat) else none
    | _ => none
  text? := tomlText?
  optionalText? v := (tomlText? v).map some

def ofToml? (text : List Char) : Option Settings :=
  (Toml.Document.parse? text).bind fun d => ofMembers? tomlReader d.members

/-- The text of a field's value, if it is written. -/
def tomlValue? (s : Settings) : Field → Option (List Char)
  | .pollInterval => some (Numeral.write s.pollInterval.toNat)
  | .computer => s.computer.map fun c => Toml.stringText c.toList
  | .root => some (Toml.stringText s.root.toList)
  | .shutdownGrace => some (Numeral.write s.shutdownGrace.toNat)
  | .logLevel => some (Toml.stringText s.logLevel.toList)

def toToml (s : Settings) : List Char :=
  Field.all.flatMap fun f =>
    match tomlValue? s f with
    | some value => f.name.toList ++ ' ' :: '=' :: ' ' :: (value ++ ['\n'])
    | none => []

end HostGauge.Settings
