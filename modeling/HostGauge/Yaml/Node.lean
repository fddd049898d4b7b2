import HostGauge.Table
import HostGauge.Yaml.Layout

/-!
YAML documents as trees. Anchors are known by numbers; an alias holds the number of the anchor
it refers to.
-/
namespace HostGauge.Yaml

/-- What may stand in front of a node. -/
structure Properties where
  anchor : Option Nat := none
  tag : Option (List Char) := none
  deriving DecidableEq, Repr

inductive Node where
  | alias (anchor : Nat)
  | scalar (properties : Properties) (style : ScalarStyle) (text : List Char)
  | sequence (properties : Properties) (items : List Node)
  | mapping (properties : Properties) (members : List (Node × Node))

/-! ### Numbers of anchors -/

/-- Numbers the anchors, each with the number of names known before it. An alias refers to the
last anchor of its name before it; without one the text is refused. -/
def numberAnchors? : Table Nat → List Lexeme → Option (List (Token Nat))
  | _, [] => some []
  | names, t :: ts =>
    let put (names : Table Nat) (t : Token Nat) : Option (List (Token Nat)) :=
      (numberAnchors? names ts).map (t :: ·)
    match t with
    | .mark m => put names (.mark m)
    | .version major minor => put names (.version major minor)
    | .tagHandle handle start => put names (.tagHandle handle start)
    | .alias name =>
      match names.find? name with
      | some n => put names (.alias n)
      | none => none
    | .anchor name => put (names.insert name names.size) (.anchor names.size)
    | .tag handle suffix => put names (.tag handle suffix)
    | .scalar style text => put names (.scalar style text)

namespace Node

/-! ### Tags -/

/-- What the handles of tags stand for; the first entry of a handle counts. -/
abbrev Handles := List (List Char × List Char)

def standardHandles : Handles :=
  [("!".toList, "!".toList), ("!!".toList, "tag:yaml.org,2002:".toList)]

/-- The octets of a tag. -/
def tagName? (handles : Handles) (handle suffix : List Char) : Option (List Char) :=
  if handle.isEmpty then some suffix else (handles.lookup handle).map (· ++ suffix)

/-- At most one anchor and one tag, in any order, and what follows them. -/
def properties? (handles : Handles) : List (Token Nat) → Option (Properties × List (Token Nat))
  | .anchor a :: .tag h s :: ts => (tagName? handles h s).map fun t => (⟨some a, some t⟩, ts)
  | .tag h s :: .anchor a :: ts => (tagName? handles h s).map fun t => (⟨some a, some t⟩, ts)
  | .anchor a :: ts => some (⟨some a, none⟩, ts)
  | .tag h s :: ts => (tagName? handles h s).map fun t => (⟨none, some t⟩, ts)
  | ts => some ({}, ts)

/-! ### Nodes -/

/-- Where a node stands. -/
inductive Place where
  /-- Within brackets. -/
  | flow
  | block
  /-- A key or a value of a mapping, where the items of a sequence need no indentation. -/
  | member
  deriving DecidableEq

/-- A node without content. -/
def empty (properties : Properties) : Node := .scalar properties .plain []

/-- The next token is one of some marks. -/
def startsWith (marks : List Mark) : List (Token Nat) → Bool
  | .mark m :: _ => marks.contains m
  | _ => false

/-- What is read of a node, or an empty node before one of some marks. -/
def emptyBefore (marks : List Mark) (read : List (Token Nat) → Option (Node × List (Token Nat)))
    (ts : List (Token Nat)) : Option (Node × List (Token Nat)) :=
  if startsWith marks ts then some (empty {}, ts) else read ts

/-- What follows the comma before an item other than the first one. -/
def afterComma? (isFirst : Bool) (ts : List (Token Nat)) : Option (List (Token Nat)) :=
  if isFirst then some ts
  else
    match ts with
    | .mark .comma :: ts => some ts
    | _ => none

/-- The value after a value mark, which may be missing. -/
def flowValue (marks : List Mark) (read : List (Token Nat) → Option (Node × List (Token Nat)))
    (ts : List (Token Nat)) : Option (Node × List (Token Nat)) :=
  match ts with
  | .mark .value :: ts => emptyBefore marks read ts
  | ts => some (empty {}, ts)

/-- A node with its own anchor. -/
def own (properties : Properties) (node : Node) : List (Nat × Node) :=
  properties.anchor.toList.map fun a => (a, node)

mutual

/-- A node at the start of some tokens, and the tokens after it. `steps` bounds the depth of
calls, of which every second one takes a token; so in the functions below. -/
def node? (handles : Handles) : Nat → Place → List (Token Nat) →
    Option (Node × List (Token Nat))
  | 0, _, _ => none
  | _ + 1, _, .alias a :: ts => some (.alias a, ts)
  | steps + 1, place, ts =>
    match properties? handles ts with
    | none => none
    | some (properties, ts) =>
      let bare := if properties = {} then none else some (empty properties, ts)
      match ts with
      | .scalar style text :: ts => some (.scalar properties style text, ts)
      | .mark .openBracket :: ts =>
        (flowItems? handles steps true ts).map fun p => (.sequence properties p.1, p.2)
      | .mark .openBrace :: ts =>
        (flowMembers? handles steps true ts).map fun p => (.mapping properties p.1, p.2)
      | .mark .sequenceStart :: ts =>
        if place = .flow then bare
        else (blockItems? handles steps ts).map fun p => (.sequence properties p.1, p.2)
      | .mark .mappingStart :: ts =>
        if place = .flow then bare
        else (blockMembers? handles steps ts).map fun p => (.mapping properties p.1, p.2)
      | .mark .item :: after =>
        if place = .member then
          (flushItems? handles steps (.mark .item :: after)).map fun p =>
            (.sequence properties p.1, p.2)
        else bare
      | _ => bare

/-- The items of an indented sequence up to its end. -/
def blockItems? (handles : Handles) : Nat → List (Token Nat) →
    Option (List Node × List (Token Nat))
  | steps + 1, .mark .item :: ts =>
    match emptyBefore [.item, .blockEnd] (node? handles steps .block) ts with
    | some (item, ts) => (blockItems? handles steps ts).map fun p => (item :: p.1, p.2)
    | none => none
  | _ + 1, .mark .blockEnd :: ts => some ([], ts)
  | _, _ => none

/-- The items of a sequence as far as they go. -/
def flushItems? (handles : Handles) : Nat → List (Token Nat) →
    Option (List Node × List (Token Nat))
  | 0, _ => none
  | steps + 1, .mark .item :: ts =>
    match emptyBefore [.item, .key, .value, .blockEnd] (node? handles steps .block) ts with
    | some (item, ts) => (flushItems? handles steps ts).map fun p => (item :: p.1, p.2)
    | none => none
  | _ + 1, ts => some ([], ts)

/-- The members of an indented mapping up to its end. -/
def blockMembers? (handles : Handles) : Nat → List (Token Nat) →
    Option (List (Node × Node) × List (Token Nat))
  | steps + 1, .mark .key :: ts =>
    let node := emptyBefore [.key, .value, .blockEnd] (node? handles steps .member)
    match node ts with
    | none => none
    | some (key, ts) =>
      let value :=
        match ts with
        | .mark .value :: ts => node ts
        | ts => some (empty {}, ts)
      match value with
      | some (value, ts) =>
        (blockMembers? handles steps ts).map fun p => ((key, value) :: p.1, p.2)
      | none => none
  | _ + 1, .mark .blockEnd :: ts => some ([], ts)
  | _, _ => none

/-- The items between brackets up to the closing one. An item with a key mark is a mapping of
one member; a key mark without a key takes the next token with it. -/
def flowItems? (handles : Handles) : Nat → Bool → List (Token Nat) →
    Option (List Node × List (Token Nat))
  | 0, _, _ => none
  | _ + 1, _, .mark .closeBracket :: ts => some ([], ts)
  | steps + 1, isFirst, ts =>
    match afterComma? isFirst ts with
    | none => none
    | some (.mark .closeBracket :: ts) => some ([], ts)
    | some (.mark .key :: ts) =>
      let key :=
        if startsWith [.value, .comma, .closeBracket] ts then some (empty {}, ts.drop 1)
        else node? handles steps .flow ts
      match key with
      | none => none
      | some (key, ts) =>
        match flowValue [.comma, .closeBracket] (node? handles steps .flow) ts with
        | some (value, ts) =>
          (flowItems? handles steps false ts).map fun p =>
            (.mapping {} [(key, value)] :: p.1, p.2)
        | none => none
    | some ts =>
      match node? handles steps .flow ts with
      | some (item, ts) => (flowItems? handles steps false ts).map fun p => (item :: p.1, p.2)
      | none => none

/-- The members between braces up to the closing one. -/
def flowMembers? (handles : Handles) : Nat → Bool → List (Token Nat) →
    Option (List (Node × Node) × List (Token Nat))
  | 0, _, _ => none
  | _ + 1, _, .mark .closeBrace :: ts => some ([], ts)
  | steps + 1, isFirst, ts =>
    match afterComma? isFirst ts with
    | none => none
    | some (.mark .closeBrace :: ts) => some ([], ts)
    | some (.mark .key :: ts) =>
      match emptyBefore [.value, .comma, .closeBrace] (node? handles steps .flow) ts with
      | none => none
      | some (key, ts) =>
        match flowValue [.comma, .closeBrace] (node? handles steps .flow) ts with
        | some (value, ts) =>
          (flowMembers? handles steps false ts).map fun p => ((key, value) :: p.1, p.2)
        | none => none
    | some ts =>
      match node? handles steps .flow ts with
      | some (key, ts) =>
        (flowMembers? handles steps false ts).map fun p => ((key, empty {}) :: p.1, p.2)
      | none => none

end

/-! ### Documents -/

/-- The directives before a document. The version must be known, and neither it nor a handle
may be given twice. -/
def directives? : Bool → Handles → List (Token Nat) → Option (Handles × List (Token Nat))
  | versioned, handles, .version major minor :: ts =>
    if versioned || major ≠ 1 || (minor ≠ 1 && minor ≠ 2) then none
    else directives? true handles ts
  | versioned, handles, .tagHandle handle start :: ts =>
    if (handles.lookup handle).isSome then none
    else directives? versioned ((handle, start) :: handles) ts
  | _, handles, ts => some (handles, ts)

def block? (handles : Handles) (ts : List (Token Nat)) : Option (Node × List (Token Nat)) :=
  node? (handles ++ standardHandles) (2 * ts.length + 2) .block ts

/-- What follows the start mark of a document. -/
def content? (handles : Handles) (ts : List (Token Nat)) : Option (Node × List (Token Nat)) :=
  match ts with
  | [] => some (empty {}, [])
  | .version _ _ :: _ => some (empty {}, ts)
  | .tagHandle _ _ :: _ => some (empty {}, ts)
  | ts => emptyBefore [.documentStart, .documentEnd] (block? handles) ts

/-- The root of the only document, or nothing where there is no document. -/
def ofTokens? (ts : List (Token Nat)) : Option (Option Node) :=
  let root : Option (Node × List (Token Nat)) :=
    match ts with
    | .version _ _ :: _ | .tagHandle _ _ :: _ | .mark .documentStart :: _ =>
      match directives? false [] ts with
      | some (handles, .mark .documentStart :: ts) => content? handles ts
      | _ => none
    | ts => block? [] ts
  if ts.isEmpty then some none
  else
    match root with
    | some (root, ts) =>
      if ts.all (· = .mark .documentEnd) then some (some root) else none
    | none => none

/-- The root of the document of a text. -/
def ofText? (text : List Char) : Option (Option Node) := do
  let lexemes ← Lexeme.ofText? text
  let tokens ← numberAnchors? {} lexemes
  ofTokens? tokens

/-! ### Anchors -/

mutual

/-- The nodes with an anchor, by its number, in the order of the text. -/
def anchored : Node → List (Nat × Node)
  | .alias _ => []
  | .scalar p style text => own p (.scalar p style text)
  | .sequence p items => own p (.sequence p items) ++ anchoredItems items
  | .mapping p members => own p (.mapping p members) ++ anchoredMembers members

def anchoredItems : List Node → List (Nat × Node)
  | [] => []
  | item :: items => item.anchored ++ anchoredItems items

def anchoredMembers : List (Node × Node) → List (Nat × Node)
  | [] => []
  | (key, value) :: members => key.anchored ++ value.anchored ++ anchoredMembers members

end

/-- The node itself, or for an alias the last node with its number. -/
def follow? (anchored : List (Nat × Node)) : Node → Option Node
  | .alias a => anchored.reverse.lookup a
  | node => some node

end Node

end HostGauge.Yaml
