import Vicinity.Config.Datum
import Vicinity.Config.Fault
import Vicinity.Yaml.Node
import Vicinity.Yaml.Number
import Vicinity.Yaml.Timestamp

/-!
# The values of YAML nodes

What the nodes of a text stand for. A tag says what kind of value a node has; a plain scalar without a
tag has the kind that its form asks for. A key may merge the entries of other mappings into its own. A
collection that holds itself is unfolded a few times, more deeply than settings are read.
-/

namespace Vicinity.Yaml

open Vicinity.Text

/-- The kinds of values. -/
inductive Tag where
  | null | bool | int | float | binary | timestamp | text
  | sequence | mapping | set
  /-- A sequence of pairs. -/
  | pairs
  /-- The key that merges. -/
  | merge
  /-- The key of the value that stands for a mapping. -/
  | value
  /-- Any other kind. -/
  | unknown
  deriving DecidableEq, Repr

namespace Tag

/-- What the tags of known kinds begin with. -/
def family : List Char := "tag:yaml.org,2002:".toList

/-- The known kinds with the ends of their tags. -/
def names : List (String × Tag) :=
  [("null", .null), ("bool", .bool), ("int", .int), ("float", .float), ("binary", .binary),
    ("timestamp", .timestamp), ("str", .text), ("seq", .sequence), ("map", .mapping), ("set", .set),
    ("omap", .pairs), ("pairs", .pairs), ("merge", .merge), ("value", .value)]

/-- The kind that a tag names. -/
def ofUri (uri : List Char) : Tag :=
  if family.isPrefixOf uri then
    (names.lookup (String.ofList (uri.drop family.length))).getD .unknown
  else .unknown

/-- Words for a switch, each in lower case, capitalised, and in upper case. -/
def switchWords : List (String × Bool) :=
  [("yes", true), ("no", false), ("true", true), ("false", false), ("on", true), ("off", false)]

/-- The ways to write a word. -/
def spellings (word : String) : List String := [word, word.capitalize, word.map Char.toUpper]

/-- The kind that the form of a plain scalar asks for. -/
def ofPlain (text : List Char) : Tag :=
  let s := String.ofList text
  if switchWords.any fun word => (spellings word.1).contains s then .bool
  else if floatForm.matchesAll text then .float
  else if wholeForm.matchesAll text then .int
  else if s = "<<" then .merge
  else if s = "" ∨ s = "~" ∨ (spellings "null").contains s then .null
  else if Timestamp.isForm text then .timestamp
  else if s = "=" then .value
  else .text

end Tag

/-- The tag that leaves the kind to the form. -/
def plainTag : List Char := ['!']

/-- The kind of a node; an alias has none. -/
def Node.kind : Node → Tag
  | .scalar none text isPlain => if isPlain then Tag.ofPlain text else .text
  | .scalar (some tag) text _ => if tag = plainTag then Tag.ofPlain text else Tag.ofUri tag
  | .sequence none _ => .sequence
  | .sequence (some tag) _ => if tag = plainTag then .sequence else Tag.ofUri tag
  | .mapping none _ => .mapping
  | .mapping (some tag) _ => if tag = plainTag then .mapping else Tag.ofUri tag
  | .alias _ => .unknown

/-! ### Bytes -/

/-- The value of a letter of base 64. -/
def base64Value? (c : Char) : Option Nat :=
  if 'A' ≤ c ∧ c ≤ 'Z' then some (c.toNat - 'A'.toNat)
  else if 'a' ≤ c ∧ c ≤ 'z' then some (c.toNat - 'a'.toNat + 26)
  else if c.isDigit then some (c.toNat - '0'.toNat + 52)
  else if c = '+' then some 62
  else if c = '/' then some 63
  else none

/-- The bytes that a text in base 64 writes: `quad` letters of a group are read, whose last bits are
`left`, and then `pads` signs of padding. Other characters are passed over; none if the last group is
not complete. -/
def base64? : List Char → (quad left pads : Nat) → (done : List UInt8) → Option (List UInt8)
  | [], quad, _, _, done => if quad = 0 then some done.reverse else none
  | c :: rest, quad, left, pads, done =>
    if c = '=' then
      if 2 ≤ quad ∧ 4 ≤ quad + pads + 1 then some done.reverse
      else base64? rest quad left (if 2 ≤ quad then pads + 1 else pads) done
    else match base64Value? c with
      | none => base64? rest quad left pads done
      | some v =>
        match quad with
        | 0 => base64? rest 1 v 0 done
        | 1 => base64? rest 2 (v % 16) 0 ((4 * left + v / 16).toUInt8 :: done)
        | 2 => base64? rest 3 (v % 4) 0 ((16 * left + v / 4).toUInt8 :: done)
        | _ => base64? rest 0 0 0 ((64 * left + v).toUInt8 :: done)

/-! ### Scalars -/

/-- A fault of a number as one of a value. -/
def ofNumber {α : Type} : Except NumberFault α → Except ValueFault α
  | .ok a => .ok a
  | .error fault => .error (.number fault)

/-- The value of a text of a kind. -/
def scalarDatum (kind : Tag) (text : List Char) : Except ValueFault Datum :=
  match kind with
  | .null => .ok .null
  | .bool =>
    match Tag.switchWords.lookup (String.ofList (text.map Char.toLower)) with
    | some b => .ok (.bool b)
    | none => .error (.switch (text.map Char.toLower))
  | .int => (ofNumber (wholeNumber text)).map .int
  | .float => (ofNumber (floatNumber text)).map .float
  | .binary =>
    if text.any fun c => c.toNat ≥ 0x80 then .error .malformed
    else match base64? text 0 0 0 [] with
      | some bytes => .ok (.bytes ⟨bytes.toArray⟩)
      | none => .error .malformed
  | .timestamp =>
    match Timestamp.ofText? text with
    | none => .error .timeForm
    | some t =>
      match t.fault? with
      | some fault => .error (.calendar fault)
      | none => .ok (if t.time.isSome then .dateTime else .date)
  | .text => .ok (.text (String.ofList text))
  | _ => .error .malformed

/-! ### Collections -/

/-- Whether a value can be a key. -/
def canBeKey : Datum → Bool
  | .list _ | .set _ | .record _ => false
  | _ => true

/-- The entries of a mapping with one more. A later value under a text takes the place of an earlier
one. -/
def insertEntry (entries : List (Datum × Datum)) (key value : Datum) : List (Datum × Datum) :=
  match key with
  | .text k =>
    if (Datum.field? entries k).isSome then
      entries.map fun entry => match entry.1 with
        | .text k' => if k' = k then (key, value) else entry
        | _ => entry
    else entries ++ [(key, value)]
  | _ => entries ++ [(key, value)]

/-- How often an anchored node is unfolded inside of itself. -/
def maxUnfolding : Nat := 3

section

variable (anchored : List (List Char × Node))

/-- The node that a node stands for, and the anchors that are open in it; none where an anchored node is
unfolded often enough. -/
def resolve (opened : List (List Char)) : Node → Option (Node × List (List Char))
  | .alias name =>
    if opened.count name < maxUnfolding then
      (anchored.lookup name).map fun node => (node, name :: opened)
    else none
  | node => some (node, opened)

/-- The text of a node: of a scalar its own, and of a mapping that of the value that stands for it. In
at most `fuel` nested steps. -/
def textOf? : (fuel : Nat) → Node → Option (List Char)
  | 0, _ => none
  | fuel + 1, node =>
    match resolve anchored [] node with
    | some (.scalar _ text _, _) => some text
    | some (.mapping _ entries, _) =>
      match entries.find? fun entry => entry.1.kind = .value with
      | some entry => textOf? fuel entry.2
      | none => none
    | _ => none

mutual

/-- The entries of a mapping after those that it merges, each with the anchors that are open in it. In
at most `fuel` nested steps. -/
def flatten : (fuel : Nat) → List (List Char) → List (Node × Node) →
    Except ValueFault (List (Node × Node × List (List Char)))
  | 0, _, _ => .error .malformed
  | fuel + 1, opened, entries => do
    let (merges, own) := entries.partition fun entry =>
      (resolve anchored opened entry.1).any fun (key, _) => key.kind = .merge
    let merged ← merges.mapM fun entry => mergedBy fuel opened entry.2
    .ok (merged.flatten ++ own.map fun entry => (entry.1, entry.2, opened))

/-- The entries of a mapping that is merged, or of the mappings in a sequence, of which the first has
the last word. -/
def mergedBy : (fuel : Nat) → List (List Char) → Node →
    Except ValueFault (List (Node × Node × List (List Char)))
  | 0, _, _ => .error .malformed
  | fuel + 1, opened, node =>
    match resolve anchored opened node with
    | none => .ok []
    | some (.mapping _ entries, opened) => flatten fuel opened entries
    | some (.sequence _ items, opened) => do
      let parts ← items.mapM fun item =>
        match resolve anchored opened item with
        | none => .ok []
        | some (.mapping _ entries, opened) => flatten fuel opened entries
        | some _ => .error .malformed
      .ok parts.reverse.flatten
    | some _ => .error .malformed

end

mutual

/-- The value of a node, in at most `fuel` nested steps. -/
def datum : (fuel : Nat) → List (List Char) → Node → Except ValueFault Datum
  | 0, _, _ => .error .malformed
  | fuel + 1, opened, node =>
    match resolve anchored opened node with
    | none => .ok .null
    | some (node, opened) =>
      match node.kind, node with
      | .sequence, .sequence _ items => (items.mapM (datum fuel opened)).map .list
      | .mapping, .mapping _ entries => (entriesOf fuel opened entries).map .record
      | .set, .mapping _ entries =>
        (entriesOf fuel opened entries).map fun entries => .set (entries.map (·.1))
      | .pairs, .sequence _ items => (items.mapM (pairOf fuel opened)).map .list
      | kind, node =>
        match textOf? anchored fuel node with
        | some text => scalarDatum kind text
        | none => .error .malformed

/-- The entries of a mapping. -/
def entriesOf : (fuel : Nat) → List (List Char) → List (Node × Node) →
    Except ValueFault (List (Datum × Datum))
  | 0, _, _ => .error .malformed
  | fuel + 1, opened, entries => do
    let entries ← flatten anchored fuel opened entries
    let entries ← entries.mapM fun (key, value, opened) => do
      let key ← keyOf fuel opened key
      let value ← datum fuel opened value
      .ok (key, value)
    .ok (entries.foldl (fun done entry => insertEntry done entry.1 entry.2) [])

/-- The value of a key. -/
def keyOf : (fuel : Nat) → List (List Char) → Node → Except ValueFault Datum
  | 0, _, _ => .error .malformed
  | fuel + 1, opened, node =>
    match resolve anchored opened node with
    | some (.scalar tag text isPlain, opened) =>
      if (Node.scalar tag text isPlain).kind = .value then .ok (.text (String.ofList text))
      else datum fuel opened (.scalar tag text isPlain)
    | some (node, opened) => do
      let key ← datum fuel opened node
      if canBeKey key then .ok key else .error .malformed
    | none => .error .malformed

/-- The pair that a mapping of one entry gives. -/
def pairOf : (fuel : Nat) → List (List Char) → Node → Except ValueFault Datum
  | 0, _, _ => .error .malformed
  | fuel + 1, opened, node =>
    match resolve anchored opened node with
    | some (.mapping _ [(key, value)], opened) => do
      let key ← datum fuel opened key
      let value ← datum fuel opened value
      .ok (.pair key value)
    | _ => .error .malformed

end

end

/-- The value of a document. No way from its root is longer than its nodes with what they unfold. -/
def Document.datum (d : Document) (size : Nat) : Except ValueFault Datum :=
  Yaml.datum d.anchored (6 * (size + 1) * (maxUnfolding * d.anchored.length + 1)) [] d.root

/-- The value that a text writes; an empty text writes none. -/
def load (text : List Char) : Except ValueFault Datum :=
  match Document.ofText? text with
  | none => .error .malformed
  | some none => .ok .null
  | some (some document) => document.datum text.length

end Vicinity.Yaml
