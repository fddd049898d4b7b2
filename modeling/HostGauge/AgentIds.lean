import HostGauge.Host.Reading
import HostGauge.Text.Blank
import HostGauge.Text.Line

/-!
Identifiers of the agent on a host. An agent with workspaces keeps a configuration in one
directory per workspace, named by an identifier of the shape 8-4-4-4-12; only where no such
directory has a configuration is the single one of an older agent read.
-/
namespace HostGauge

/-- One identifier, or the list of all where there is not exactly one. -/
inductive AgentIds where
  | single (id : String)
  | multiple (ids : List String)
  deriving DecidableEq, Repr

namespace AgentIds

def ofList? : List String → Option AgentIds
  | [] => none
  | [id] => some (.single id)
  | ids => some (.multiple ids)

def toList : AgentIds → List String
  | single id => [id]
  | multiple ids => ids

def label : List Char := "AGENT_GUID=".toList

/-- The value on the first line that starts with the label: up to the next equals sign and
trimmed. A blank value is no identifier. -/
def parse (text : List Char) : Option String :=
  match (Text.lines text).findSome? (Text.stripStart label) with
  | none => none
  | some value =>
    let id := Text.trim (value.takeWhile (· ≠ '='))
    if id.isEmpty then none else some (String.ofList id)

/-- The lengths of the groups in the name of a workspace. -/
def groupLengths : List Nat := [8, 4, 4, 4, 12]

/-- Whether groups of these lengths, joined by hyphens, make up the text; a group may hold any
character but a slash. -/
def hasShape : List Nat → List Char → Bool
  | [], s => s.isEmpty
  | [n], s => s.length = n && s.all (· ≠ '/')
  | n :: rest, s =>
    (s.take n).length = n && (s.take n).all (· ≠ '/') && (s.drop n).head? = some '-'
      && hasShape rest (s.drop (n + 1))

def isWorkspaceName (name : String) : Bool := hasShape groupLengths name.toList

def baseDirectory (root : String) : String :=
  Path.joinAll root ["etc", "opt", "microsoft", "omsagent"]

/-- The configuration in a directory. -/
def configPath (directory : String) : String := Path.joinAll directory ["conf", "omsadmin.conf"]

/-- The configurations of all workspaces, in the order of their names. -/
def workspaceConfigs (host : Host) (root : String) : List String :=
  match host.list (baseDirectory root) with
  | .error _ => []
  | .ok names =>
    let configs := (names.filter isWorkspaceName).mergeSort (fun a b => a ≤ b) |>.map fun name =>
      configPath (Path.join (baseDirectory root) name)
    configs.filter host.isRegularFile

def readConfig (host : Host) (path : String) : Option String :=
  match host.readText path with
  | .ok text => parse text
  | .error _ => none

def read (host : Host) (root : String) : Option AgentIds :=
  match workspaceConfigs host root with
  | [] => ofList? (readConfig host (configPath (baseDirectory root))).toList
  | configs => ofList? (configs.filterMap (readConfig host))

end AgentIds

end HostGauge
