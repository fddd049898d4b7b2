import HostGauge.Json.Token

/-!
JSON documents as they are written: members in their order, with repeated names.
`Document.ofTokens?` reads one document with a stack of open arrays and objects, so nothing
bounds their nesting.
-/
namespace HostGauge.Json

inductive Document where
  | null
  | bool (b : Bool)
  | number (n : WrittenNumber)
  | string (s : WrittenString)
  | array (items : List Document)
  | object (members : List (WrittenString × Document))

namespace Document

instance : Inhabited Document := ⟨null⟩

/-- An array or object that is still open, with its last part first. -/
inductive Frame where
  | items (before : List Document)
  | members (before : List (WrittenString × Document))
  /-- An object whose member of this name waits for its value. -/
  | member (before : List (WrittenString × Document)) (name : WrittenString)

/-- What may come next. -/
inductive Mode where
  | value
  | firstItem
  | firstName
  | name
  | colon (name : WrittenString)
  | more
  | finished (document : Document)

structure State where
  frames : List Frame := []
  mode : Mode := .value

/-- The state after a value has been read. -/
def State.complete (d : Document) : List Frame → Option State
  | [] => some ⟨[], .finished d⟩
  | .items before :: frames => some ⟨.items (d :: before) :: frames, .more⟩
  | .member before name :: frames => some ⟨.members ((name, d) :: before) :: frames, .more⟩
  | .members _ :: _ => none

/-- The state after the first token of a value. -/
def State.begin (frames : List Frame) : Token → Option State
  | .null => complete .null frames
  | .bool b => complete (.bool b) frames
  | .number n => complete (.number n) frames
  | .string s => complete (.string s) frames
  | .openArray => some ⟨.items [] :: frames, .firstItem⟩
  | .openObject => some ⟨.members [] :: frames, .firstName⟩
  | .closeArray | .closeObject | .colon | .comma => none

/-- The state after the innermost array or object has been closed. -/
def State.close : List Frame → Token → Option State
  | .items before :: frames, .closeArray => complete (.array before.reverse) frames
  | .members before :: frames, .closeObject => complete (.object before.reverse) frames
  | _, _ => none

def State.step (state : State) (token : Token) : Option State :=
  match state.mode with
  | .value => begin state.frames token
  | .firstItem =>
    match token with
    | .closeArray => close state.frames token
    | _ => begin state.frames token
  | .firstName =>
    match token with
    | .closeObject => close state.frames token
    | .string name => some { state with mode := .colon name }
    | _ => none
  | .name =>
    match token with
    | .string name => some { state with mode := .colon name }
    | _ => none
  | .colon name =>
    match token, state.frames with
    | .colon, .members before :: frames => some ⟨.member before name :: frames, .value⟩
    | _, _ => none
  | .more =>
    match token, state.frames with
    | .comma, .items _ :: _ => some { state with mode := .value }
    | .comma, .members _ :: _ => some { state with mode := .name }
    | _, _ => close state.frames token
  | .finished _ => none

def State.run (state : State) : List Token → Option State
  | [] => some state
  | token :: rest =>
    match state.step token with
    | some next => next.run rest
    | none => none

/-- The document that makes up all tokens. -/
def ofTokens? (tokens : List Token) : Option Document :=
  match State.run {} tokens with
  | some ⟨[], .finished d⟩ => some d
  | _ => none

def parse? (text : List Char) : Option Document := (scan text).bind ofTokens?

end Document

end HostGauge.Json
