import HostGauge.Json.Printer
import HostGauge.Json.Reader
import HostGauge.Settings.Fields

/-!
Settings as JSON: an object of named members, or an array of values in the order of the fields.
They are written as an object with one member on a line.
-/
namespace HostGauge.Settings

/-- A name must be a text; what a member of another name holds need not have a meaning. -/
def jsonMembers? (members : List (Json.WrittenString × Json.Document)) :
    Option (List (String × Json.Document)) :=
  members.mapM fun m => m.1.text?.map fun name => (name, m.2)

def jsonText? : Json.Document → Option String
  | .string s => s.text?
  | _ => none

def jsonReader : ValueReader Json.Document where
  word? d :=
    match d with
    | .number n => n.word?
    | _ => none
  text? := jsonText?
  optionalText? d :=
    match d with
    | .null => some none
    | d => (jsonText? d).map some

def ofJsonDocument? : Json.Document → Option Settings
  | .object members => (jsonMembers? members).bind (ofMembers? jsonReader)
  | .array values => ofValues? jsonReader values
  | _ => none

def ofJson? (text : List Char) : Option Settings :=
  (Json.Document.parse? text).bind ofJsonDocument?

/-- The value of a field. -/
def jsonValue (s : Settings) : Field → Json
  | .pollInterval => .ofNat s.pollInterval.toNat
  | .computer =>
    match s.computer with
    | some c => .string c
    | none => .null
  | .root => .string s.root
  | .shutdownGrace => .ofNat s.shutdownGrace.toNat
  | .logLevel => .string s.logLevel

/-- One member, indented on a line of its own. -/
def jsonLine (s : Settings) (f : Field) : List Char :=
  '\n' :: ' ' :: ' ' :: (Json.quoted f.name ++ ':' :: ' ' :: (jsonValue s f).compact)

def toJson (s : Settings) : List Char :=
  '\x7b' :: (Json.commaSeparated (Field.all.map (jsonLine s)) ++ ['\n', '\x7d'])

end HostGauge.Settings
