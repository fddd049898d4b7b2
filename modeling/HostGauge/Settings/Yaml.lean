import HostGauge.Settings.Fields
import HostGauge.Text.Blank
import HostGauge.Yaml.Node
import HostGauge.Yaml.Printer

/-!
Settings as YAML: a mapping of named members. A blank file, a file without a document and an
empty document give the defaults. A member that is a text takes the text of any scalar.
-/
namespace HostGauge.Settings

def integerTag : List Char := "tag:yaml.org,2002:int".toList

def nullTag : List Char := "tag:yaml.org,2002:null".toList

/-- A number must be written without quotes, or as a block with the tag of integers. -/
def yamlWord? : Yaml.Node → Option UInt64
  | .scalar p style text =>
    if style = .plain || (style = .literal && p.tag = some integerTag) then
      (Yaml.Schema.unsigned? UInt64.size text).map UInt64.ofNat
    else none
  | _ => none

def yamlText? : Yaml.Node → Option String
  | .scalar _ _ text => some (String.ofList text)
  | _ => none

/-- A text, or nothing where an unquoted scalar says so. With the tag of nothing it must; any
other tag, an exclamation mark alone included, makes it a text. -/
def yamlOptionalText? : Yaml.Node → Option (Option String)
  | .scalar p style text =>
    let given := some (some (String.ofList text))
    if style ≠ .plain then given
    else
      match p.tag with
      | none => if text.isEmpty || Yaml.Schema.isNull text then some none else given
      | some tag =>
        if tag ≠ nullTag then given else if Yaml.Schema.isNull text then some none else none
  | _ => none

def yamlReader : ValueReader Yaml.Node where
  word? := yamlWord?
  text? := yamlText?
  optionalText? := yamlOptionalText?

/-- The members of a mapping, with aliases followed. A name must be a scalar. -/
def yamlMembers? (anchored : List (Nat × Yaml.Node)) (members : List (Yaml.Node × Yaml.Node)) :
    Option (List (String × Yaml.Node)) :=
  members.mapM fun m => do
    let key ← m.1.follow? anchored
    let value ← m.2.follow? anchored
    let name ← yamlText? key
    return (name, value)

def ofYamlNode? (root : Yaml.Node) : Option Settings :=
  match root with
  | .mapping _ members => (yamlMembers? root.anchored members).bind (ofMembers? yamlReader)
  | .scalar _ .plain [] => some {}
  | _ => none

def ofYaml? (text : List Char) : Option Settings :=
  if text.all Text.isBlank then some {}
  else
    match Yaml.Node.ofText? text with
    | some (some root) => ofYamlNode? root
    | some none => some {}
    | none => none

/-- The text of a field's value, with the end of its line. -/
def yamlValue (s : Settings) : Field → List Char
  | .pollInterval => Numeral.write s.pollInterval.toNat ++ ['\n']
  | .computer =>
    match s.computer with
    | some c => Yaml.scalarText c.toList
    | none => "null\n".toList
  | .root => Yaml.scalarText s.root.toList
  | .shutdownGrace => Numeral.write s.shutdownGrace.toNat ++ ['\n']
  | .logLevel => Yaml.scalarText s.logLevel.toList

def toYaml (s : Settings) : List Char :=
  Field.all.flatMap fun f => f.name.toList ++ ':' :: ' ' :: yamlValue s f

end HostGauge.Settings
