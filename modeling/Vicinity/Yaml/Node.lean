import Vicinity.Yaml.Token

/-!
# The nodes of a YAML text

The tree that a text writes: scalars, sequences and mappings with their tags, and aliases that stand for
anchored nodes. A text holds at most one document.
-/

namespace Vicinity.Yaml

/-- A node. A tag that is not written is none. -/
inductive Node where
  | scalar (tag : Option (List Char)) (text : List Char) (isPlain : Bool)
  | sequence (tag : Option (List Char)) (items : List Node)
  | mapping (tag : Option (List Char)) (entries : List (Node × Node))
  /-- The node with an anchor. -/
  | alias (name : List Char)
  deriving Inhabited

/-- The node where nothing is written. -/
def Node.empty : Node := .scalar none [] true

/-- The handles of tags that need not be declared, and what they stand for. -/
def defaultHandles : List (List Char × List Char) :=
  [(['!'], ['!']), (['!', '!'], "tag:yaml.org,2002:".toList)]

/-- Where the reading of nodes has come to. -/
structure Reading where
  tokens : List Token
  /-- The handles of tags and what they stand for. -/
  handles : List (List Char × List Char) := defaultHandles
  /-- The anchors that aliases may name. -/
  names : List (List Char) := []
  /-- The anchored nodes that are read. -/
  anchored : List (List Char × Node) := []

namespace Reading

/-- The next token. -/
def next (r : Reading) : Option Token := r.tokens.head?

/-- Past the next token. -/
def step (r : Reading) : Reading := { r with tokens := r.tokens.tail }

/-- Past the next token if it is the given one; otherwise none. -/
def expect (r : Reading) (token : Token) : Option Reading :=
  if r.next = some token then some r.step else none

/-- Whether one of some tokens comes next. -/
def at? (r : Reading) (tokens : List Token) : Bool := r.next.any tokens.contains

/-- The anchor that comes next, if one does. -/
def anchor (r : Reading) : Option (List Char) × Reading :=
  match r.next with
  | some (.anchor name) => (some name, r.step)
  | _ => (none, r)

/-- The tag that comes next, if one does; none if its handle stands for nothing. -/
def tag (r : Reading) : Option (Option (List Char) × Reading) :=
  match r.next with
  | some (.tag none suffix) => some (some suffix, r.step)
  | some (.tag (some handle) suffix) =>
    (r.handles.lookup handle).map fun uri => (some (uri ++ suffix), r.step)
  | _ => some (none, r)

/-- The anchor and the tag of a node, in either order. -/
def properties (r : Reading) : Option (Option (List Char) × Option (List Char) × Reading) := do
  match r.anchor with
  | (some name, r) => do
    let (tag, r) ← r.tag
    some (some name, tag, r)
  | (none, r) => do
    let (tag, r) ← r.tag
    if tag.isSome then
      let (name, r) := r.anchor
      some (name, tag, r)
    else some (none, none, r)

/-- Makes an anchor known; none if it is known already. -/
def declare (r : Reading) : Option (List Char) → Option Reading
  | none => some r
  | some name => if r.names.contains name then none else some { r with names := name :: r.names }

/-- Keeps the node of an anchor. -/
def keep (r : Reading) (name : Option (List Char)) (node : Node) : Reading :=
  match name with
  | none => r
  | some name => { r with anchored := (name, node) :: r.anchored }

end Reading

/-- Where a node stands. -/
inductive NodePlace where
  /-- In brackets. -/
  | flow
  /-- Outside of brackets. -/
  | block
  /-- As a key or a value outside of brackets, where a sequence need not be indented. -/
  | field
  deriving DecidableEq

mutual

/-- Reads a node, in at most `fuel` nested steps. -/
def node? : (fuel : Nat) → NodePlace → Reading → Option (Node × Reading)
  | 0, _, _ => none
  | fuel + 1, place, r =>
    match r.next with
    | some (.alias name) => if r.names.contains name then some (.alias name, r.step) else none
    | _ => do
      let (name, tag, r) ← r.properties
      let r ← r.declare name
      let (node, r) ←
        if place = .field && r.at? [.entry] then
          (lineItems fuel r []).map fun (items, r) => (Node.sequence tag items, r)
        else match r.next with
          | some (.scalar text isPlain) => some (Node.scalar tag text isPlain, r.step)
          | some .flowSequence =>
            (flowItems fuel true r.step []).map fun (items, r) => (Node.sequence tag items, r)
          | some .flowMapping =>
            (flowEntries fuel true r.step []).map fun (items, r) => (Node.mapping tag items, r)
          | some .blockSequence =>
            if place = .flow then none
            else (blockItems fuel r.step []).map fun (items, r) => (Node.sequence tag items, r)
          | some .blockMapping =>
            if place = .flow then none
            else (blockEntries fuel r.step []).map fun (items, r) => (Node.mapping tag items, r)
          | _ => if name.isSome || tag.isSome then some (Node.scalar tag [] true, r) else none
      some (node, r.keep name node)

/-- Reads a node unless one of some tokens comes next. -/
def nodeUnless : (fuel : Nat) → NodePlace → List Token → Reading → Option (Node × Reading)
  | 0, _, _, _ => none
  | fuel + 1, place, tokens, r => if r.at? tokens then some (.empty, r) else node? fuel place r

/-- Reads the value of a key, which may be left out. -/
def value? : (fuel : Nat) → NodePlace → List Token → Reading → Option (Node × Reading)
  | 0, _, _, _ => none
  | fuel + 1, place, tokens, r =>
    if r.at? [.value] then nodeUnless fuel place tokens r.step else some (.empty, r)

/-- Reads the items of an indented sequence; `done` are those before, the last first. -/
def blockItems : (fuel : Nat) → Reading → List Node → Option (List Node × Reading)
  | 0, _, _ => none
  | fuel + 1, r, done =>
    if r.at? [.entry] then
      match nodeUnless fuel .block [.entry, .blockEnd] r.step with
      | some (node, r) => blockItems fuel r (node :: done)
      | none => none
    else (r.expect .blockEnd).map fun r => (done.reverse, r)

/-- Reads the items of a sequence that is not indented. -/
def lineItems : (fuel : Nat) → Reading → List Node → Option (List Node × Reading)
  | 0, _, _ => none
  | fuel + 1, r, done =>
    if r.at? [.entry] then
      match nodeUnless fuel .block [.entry, .key, .value, .blockEnd] r.step with
      | some (node, r) => lineItems fuel r (node :: done)
      | none => none
    else some (done.reverse, r)

/-- Reads the entries of an indented mapping. -/
def blockEntries : (fuel : Nat) → Reading → List (Node × Node) →
    Option (List (Node × Node) × Reading)
  | 0, _, _ => none
  | fuel + 1, r, done =>
    if r.at? [.key] then
      match nodeUnless fuel .field [.key, .value, .blockEnd] r.step with
      | some (key, r) =>
        match value? fuel .field [.key, .value, .blockEnd] r with
        | some (value, r) => blockEntries fuel r ((key, value) :: done)
        | none => none
      | none => none
    else (r.expect .blockEnd).map fun r => (done.reverse, r)

/-- Reads the items of a sequence in brackets, with commas between them. A key makes an item a mapping
of its own. -/
def flowItems : (fuel : Nat) → (isFirst : Bool) → Reading → List Node →
    Option (List Node × Reading)
  | 0, _, _, _ => none
  | fuel + 1, isFirst, r, done =>
    if r.at? [.flowSequenceEnd] then some (done.reverse, r.step)
    else match if isFirst then some r else r.expect .flowEntry with
      | none => none
      | some r =>
        if r.at? [.key] then
          match nodeUnless fuel .flow [.value, .flowEntry, .flowSequenceEnd] r.step with
          | some (key, r) =>
            match value? fuel .flow [.flowEntry, .flowSequenceEnd] r with
            | some (value, r) => flowItems fuel false r (.mapping none [(key, value)] :: done)
            | none => none
          | none => none
        else if r.at? [.flowSequenceEnd] then some (done.reverse, r.step)
        else match node? fuel .flow r with
          | some (node, r) => flowItems fuel false r (node :: done)
          | none => none

/-- Reads the entries of a mapping in braces, with commas between them. -/
def flowEntries : (fuel : Nat) → (isFirst : Bool) → Reading → List (Node × Node) →
    Option (List (Node × Node) × Reading)
  | 0, _, _, _ => none
  | fuel + 1, isFirst, r, done =>
    if r.at? [.flowMappingEnd] then some (done.reverse, r.step)
    else match if isFirst then some r else r.expect .flowEntry with
      | none => none
      | some r =>
        if r.at? [.key] then
          match nodeUnless fuel .flow [.value, .flowEntry, .flowMappingEnd] r.step with
          | some (key, r) =>
            match value? fuel .flow [.flowEntry, .flowMappingEnd] r with
            | some (value, r) => flowEntries fuel false r ((key, value) :: done)
            | none => none
          | none => none
        else if r.at? [.flowMappingEnd] then some (done.reverse, r.step)
        else match node? fuel .flow r with
          | some (node, r) => flowEntries fuel false r ((node, .empty) :: done)
          | none => none

end

/-! ### Documents -/

/-- Whether a token is a directive. -/
def Token.isDirective : Token → Bool
  | .version _ | .handle _ _ | .directive => true
  | _ => false

/-- The handles of tags that directives declare, after those found; none if a directive is given twice
or the version is not known. -/
def handlesOf : List Token → (versioned : Bool) → (found : List (List Char × List Char)) →
    Option (List (List Char × List Char))
  | [], _, found => some found
  | .version major :: more, versioned, found =>
    if versioned || major ≠ 1 then none else handlesOf more true found
  | .handle handle uri :: more, versioned, found =>
    if (found.lookup handle).isSome then none else handlesOf more versioned ((handle, uri) :: found)
  | _ :: more, versioned, found => handlesOf more versioned found

/-- A document: its root and the anchored nodes. -/
structure Document where
  root : Node
  anchored : List (List Char × Node)

/-- The document that some tokens write, if they write any. -/
def Document.ofTokens? (tokens : List Token) : Option (Option Document) :=
  let finish (result : Option (Node × Reading)) : Option (Option Document) := do
    let (root, r) ← result
    if (r.tokens.dropWhile (· == .documentEnd)).isEmpty then some (some ⟨root, r.anchored⟩) else none
  match tokens with
  | [] => some none
  | first :: _ =>
    if first.isDirective || first == .documentStart then do
      let handles ← handlesOf (tokens.takeWhile Token.isDirective) false []
      let r : Reading := { tokens := tokens.dropWhile Token.isDirective,
                           handles := handles ++ defaultHandles }
      let r ← r.expect .documentStart
      let isEmpty : Bool := match r.next with
        | some token => token.isDirective || token == .documentStart || token == .documentEnd
        | none => true
      finish (if isEmpty then some (.empty, r) else node? (6 * tokens.length + 6) .block r)
    else finish (node? (6 * tokens.length + 6) .block { tokens })

/-- The document in a text, if there is one; none if the text is malformed. -/
def Document.ofText? (text : List Char) : Option (Option Document) :=
  (tokens? text).bind Document.ofTokens?

end Vicinity.Yaml
