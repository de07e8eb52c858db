import Vicinity.Yaml.ScalarText

/-!
# The tokens of a YAML text

Cutting a text into tokens. Collections that indentation lays out have tokens for their beginnings and
their ends. Whether a node is a key is known only at the colon after it, so each place where a key can
begin is kept until then; a key stays on one line and is not long.
-/

namespace Vicinity.Yaml

/-- A token of a YAML text. -/
inductive Token where
  /-- The version of the format, of which only the first number matters. -/
  | version (major : Nat)
  /-- What a handle of tags stands for. -/
  | handle (handle uri : List Char)
  /-- Any other directive. -/
  | directive
  | documentStart
  | documentEnd
  /-- The beginning of a sequence laid out by indentation. -/
  | blockSequence
  /-- The beginning of a mapping laid out by indentation. -/
  | blockMapping
  | blockEnd
  /-- The beginning of a sequence in brackets. -/
  | flowSequence
  | flowSequenceEnd
  /-- The beginning of a mapping in braces. -/
  | flowMapping
  | flowMappingEnd
  /-- A comma. -/
  | flowEntry
  /-- The dash before an item. -/
  | entry
  /-- A key follows. -/
  | key
  /-- A value follows. -/
  | value
  | alias (name : List Char)
  | anchor (name : List Char)
  /-- A tag; without a handle it stands for itself. -/
  | tag (handle : Option (List Char)) (suffix : List Char)
  | scalar (text : List Char) (isPlain : Bool)
  deriving DecidableEq, Repr

/-! ### Tags and directives -/

/-- A character of an address. -/
def isUriChar (c : Char) : Bool :=
  c.isAlphanum || ['-', ';', '/', '?', ':', '@', '&', '=', '+', '$', ',', '_', '.', '!', '~', '*',
    '\'', '(', ')', '[', ']'].contains c

/-- The bytes that percent escapes write, and the place after them. In at most `fuel` steps. -/
def uriBytes : (fuel : Nat) → Cursor → List UInt8 → Option (List UInt8 × Cursor)
  | 0, _, _ => none
  | fuel + 1, cur, found =>
    if cur.next == some '%' then do
      let v ← hexNumber? 2 (cur.rest.drop 1)
      uriBytes fuel (cur.skip 3) (v.toUInt8 :: found)
    else some (found.reverse, cur)

/-- The address that comes next, and the place after it; it is not empty. In at most `fuel` steps. -/
def uri? : (fuel : Nat) → Cursor → (done : List Char) → Option (List Char × Cursor)
  | 0, _, _ => none
  | fuel + 1, cur, done =>
    if cur.next == some '%' then do
      let (bytes, cur) ← uriBytes (cur.rest.length + 1) cur []
      let text ← String.fromUTF8? ⟨bytes.toArray⟩
      uri? fuel cur (text.toList.reverse ++ done)
    else
      let (text, next) := cur.takeWhile isUriChar
      if text.isEmpty then if done.isEmpty then none else some (done.reverse, cur)
      else uri? fuel next (text.reverse ++ done)

/-- The handle of a tag: an exclamation mark, or a name between two. -/
def tagHandle? (cur : Cursor) : Option (List Char × Cursor) :=
  if cur.next != some '!' then none
  else if (cur.rest.drop 1).head? == some ' ' then some (['!'], cur.step)
  else
    let (name, after) := cur.step.takeWhile isNameChar
    if after.next == some '!' then some ('!' :: name ++ ['!'], after.step) else none

/-- The address up to the end of a word. -/
def uriWord? (cur : Cursor) : Option (List Char × Cursor) := do
  let (uri, cur) ← uri? (cur.rest.length + 1) cur []
  if endsPart cur.next then some (uri, cur) else none

/-- A tag, which comes next. -/
def tag? (cur : Cursor) : Option (Token × Cursor) := do
  let ahead := cur.rest.drop 1
  let (tag, cur) ←
    if ahead.head? == some '<' then do
      let (suffix, cur) ← uri? (cur.rest.length + 1) (cur.skip 2) []
      if cur.next == some '>' then some (Token.tag none suffix, cur.step) else none
    else if endsWord ahead.head? then some (Token.tag none ['!'], cur.step)
    else if (ahead.takeWhile fun c => !endsPart (some c)).contains '!' then do
      let (handle, cur) ← tagHandle? cur
      let (suffix, cur) ← uri? (cur.rest.length + 1) cur []
      some (Token.tag (some handle) suffix, cur)
    else do
      let (suffix, cur) ← uri? (cur.rest.length + 1) cur.step []
      some (Token.tag (some ['!']) suffix, cur)
  if endsPart cur.next then some (tag, cur) else none

/-- The name of an anchor or an alias, given what follows its sign. -/
def nodeName? (cur : Cursor) : Option (List Char × Cursor) :=
  let (name, cur) := cur.takeWhile isNameChar
  let ends := endsWord cur.next ||
    cur.next.any ['?', ':', ',', ']', '\x7d', '%', '@', '`'].contains
  if name.isEmpty || !ends then none else some (name, cur)

/-- A number in decimal digits. -/
def decimal? (cur : Cursor) : Option (Nat × Cursor) :=
  let (digits, cur) := cur.takeWhile (·.isDigit)
  if digits.isEmpty then none
  else some (digits.foldl (fun n c => 10 * n + (c.toNat - '0'.toNat)) 0, cur)

/-- A directive, which comes next, up to the end of its line. -/
def directive? (cur : Cursor) : Option (Token × Cursor) := do
  let (name, cur) := cur.step.takeWhile isNameChar
  if name.isEmpty || !endsPart cur.next then none
  else
    let (token, cur) ←
      if name = "YAML".toList then do
        let (major, cur) ← decimal? (cur.takeWhile (· == ' ')).2
        if cur.next != some '.' then none
        else
          let (_, cur) ← decimal? cur.step
          if endsPart cur.next then some (Token.version major, cur) else none
      else if name = "TAG".toList then do
        let (handle, cur) ← tagHandle? (cur.takeWhile (· == ' ')).2
        if cur.next != some ' ' then none
        else
          let (uri, cur) ← uriWord? (cur.takeWhile (· == ' ')).2
          some (Token.handle handle uri, cur)
      else some (Token.directive, (cur.takeWhile (!isBreak ·)).2)
    cur.skipRestOfLine.map fun cur => (token, cur)

/-! ### Cutting -/

/-- A place where a key can begin. -/
structure KeyPlace where
  /-- The number of tokens before it. -/
  token : Nat
  /-- Whether there has to be a key. -/
  isRequired : Bool
  index : Nat
  line : Nat
  column : Nat

/-- Where the cutting of a text has come to. -/
structure Cutting where
  cursor : Cursor
  tokens : Array Token := #[]
  /-- The indentation of the innermost collection that is laid out by it; none is less than zero. -/
  indent : Int := -1
  /-- The indentations of the collections around it. -/
  indents : List Int := []
  /-- Whether a key may begin. -/
  allowsKey : Bool := true
  /-- Where a key may have begun, outside of brackets and in each pair of them, the innermost first. -/
  keys : List (Option KeyPlace) := [none]

/-- The most characters from the beginning of a key to its colon. -/
def maxKeyLength : Nat := 1024

namespace Cutting

/-- Whether the place is in brackets. -/
def inFlow (s : Cutting) : Bool := s.keys.length > 1

/-- Adds a token. -/
def push (s : Cutting) (token : Token) : Cutting := { s with tokens := s.tokens.push token }

/-- Adds a token that takes `n` characters. -/
def pushMark (s : Cutting) (token : Token) (n : Nat) : Cutting :=
  { s with tokens := s.tokens.push token, cursor := s.cursor.skip n }

/-- Says whether a key may begin. -/
def allow (s : Cutting) (allowsKey : Bool) : Cutting := { s with allowsKey }

/-- Ends the collections that are indented by more than a column. -/
def unwind (s : Cutting) (column : Int) : Cutting :=
  let rec go (indent : Int) (indents : List Int) (tokens : Array Token) : Cutting :=
    if column < indent then
      match indents with
      | outer :: more => go outer more (tokens.push .blockEnd)
      | [] => { s with indent, indents := [], tokens }
    else { s with indent, indents, tokens }
  if s.inFlow then s else go s.indent s.indents s.tokens

/-- Forgets the places of keys that are on another line or too far away; none if a key has to be at
one. -/
def dropStale (s : Cutting) : Option Cutting :=
  let isStale (key : KeyPlace) : Bool :=
    key.line != s.cursor.line || s.cursor.index - key.index > maxKeyLength
  if s.keys.any fun key => key.any fun key => key.isRequired && isStale key then none
  else some { s with keys := s.keys.map fun key => key.filter (!isStale ·) }

/-- Forgets the place of a key in the innermost brackets; none if a key has to be there. -/
def dropKey (s : Cutting) : Option Cutting :=
  match s.keys with
  | some key :: keys => if key.isRequired then none else some { s with keys := none :: keys }
  | _ => some s

/-- Keeps the place, where a key can begin if one may. -/
def keepKey (s : Cutting) : Option Cutting :=
  if s.allowsKey then do
    let s ← s.dropKey
    let isRequired := !s.inFlow && s.indent == s.cursor.column
    let key : KeyPlace :=
      ⟨s.tokens.size, isRequired, s.cursor.index, s.cursor.line, s.cursor.column⟩
    some { s with keys := some key :: s.keys.tail }
  else some s

/-- Begins a collection that is laid out by indentation at a column, unless one has begun there; its
token comes after `n` others. -/
def beginBlock (s : Cutting) (column : Nat) (token : Token) (n : Nat) : Cutting :=
  if s.indent < column then
    { s with
      indents := s.indent :: s.indents
      indent := column
      tokens := s.tokens.insertIdxIfInBounds n token }
  else s

/-- An item of a sequence. -/
def entry (s : Cutting) : Option Cutting :=
  if !s.inFlow && !s.allowsKey then none
  else
    let s := if s.inFlow then s else s.beginBlock s.cursor.column .blockSequence s.tokens.size
    (s.allow true).dropKey.map fun s => s.pushMark .entry 1

/-- A key with a question mark before it. -/
def key (s : Cutting) : Option Cutting :=
  if !s.inFlow && !s.allowsKey then none
  else
    let s := if s.inFlow then s else s.beginBlock s.cursor.column .blockMapping s.tokens.size
    (s.allow (!s.inFlow)).dropKey.map fun s => s.pushMark .key 1

/-- A value. If a key may have begun on the line, there was one. -/
def value (s : Cutting) : Option Cutting :=
  match s.keys with
  | some key :: keys =>
    let s := { s with
      keys := none :: keys
      tokens := s.tokens.insertIdxIfInBounds key.token .key
      allowsKey := false }
    let s := if s.inFlow then s else s.beginBlock key.column .blockMapping key.token
    some (s.pushMark .value 1)
  | _ =>
    if !s.inFlow && !s.allowsKey then none
    else
      let s := if s.inFlow then s else s.beginBlock s.cursor.column .blockMapping s.tokens.size
      (s.allow (!s.inFlow)).dropKey.map fun s => s.pushMark .value 1

/-- A node of one token, which may be a key. -/
def node (s : Cutting) (read : Cursor → Option (Token × Cursor)) : Option Cutting := do
  let s ← s.keepKey
  let (token, cursor) ← read s.cursor
  some { s with allowsKey := false, tokens := s.tokens.push token, cursor }

/-- A plain scalar. -/
def plain (s : Cutting) : Option Cutting := do
  let s ← s.keepKey
  let (text, atStart, cursor) :=
    plainText s.inFlow (s.indent + 1).toNat (s.cursor.rest.length + 1) s.cursor [] [] false
  some { s with allowsKey := atStart, tokens := s.tokens.push (.scalar text true), cursor }

/-- A block of lines. -/
def block (s : Cutting) (folded : Bool) : Option Cutting := do
  let s ← (s.allow true).dropKey
  let (text, cursor) ← blockText folded s.indent s.cursor.step
  some { s with tokens := s.tokens.push (.scalar text false), cursor }

/-- The beginning of a collection in brackets. -/
def openFlow (s : Cutting) (token : Token) : Option Cutting := do
  let s ← s.keepKey
  some (({ s with allowsKey := true, keys := none :: s.keys } : Cutting).pushMark token 1)

/-- The end of a collection in brackets; there has to be one to end. -/
def closeFlow (s : Cutting) (token : Token) : Option Cutting := do
  let s ← s.dropKey
  if s.inFlow then
    some (({ s with allowsKey := false, keys := s.keys.tail } : Cutting).pushMark token 1)
  else none

/-- What ends the collections that are open: a directive, or a mark of a document. -/
def boundary (s : Cutting) : Option Cutting :=
  ((s.unwind (-1)).allow false).dropKey

/-- What a plain scalar does not begin with. -/
def plainExceptions : List Char :=
  ['-', '?', ':', ',', '[', ']', '\x7b', '\x7d', '#', '&', '*', '!', '|', '>', '\'', '"', '%', '@',
    '`']

/-- Whether a plain scalar begins with a character, before another one. -/
def beginsPlain (s : Cutting) (c : Char) (next : Option Char) : Bool :=
  (!endsWord (some c) && !plainExceptions.contains c) ||
    (!endsWord next && (c == '-' || (!s.inFlow && (c == '?' || c == ':'))))

/-- Reads the token that comes next, which begins with the given character. -/
def token (s : Cutting) (c : Char) : Option Cutting :=
  let cur := s.cursor
  let next := (cur.rest.drop 1).head?
  let indicates := s.inFlow || endsWord next
  if c == '%' && cur.column == 0 then do
    let s ← s.boundary
    let (token, cursor) ← directive? s.cursor
    some { s with tokens := s.tokens.push token, cursor }
  else if cur.column == 0 && cur.atMark '-' then s.boundary.map fun s => s.pushMark .documentStart 3
  else if cur.column == 0 && cur.atMark '.' then s.boundary.map fun s => s.pushMark .documentEnd 3
  else if c == '[' then s.openFlow .flowSequence
  else if c == '\x7b' then s.openFlow .flowMapping
  else if c == ']' then s.closeFlow .flowSequenceEnd
  else if c == '\x7d' then s.closeFlow .flowMappingEnd
  else if c == ',' then (s.allow true).dropKey.map fun s => s.pushMark .flowEntry 1
  else if c == '-' && endsWord next then s.entry
  else if c == '?' && indicates then s.key
  else if c == ':' && indicates then s.value
  else if c == '*' then
    s.node fun cur => (nodeName? cur.step).map fun (name, cur) => (.alias name, cur)
  else if c == '&' then
    s.node fun cur => (nodeName? cur.step).map fun (name, cur) => (.anchor name, cur)
  else if c == '!' then s.node tag?
  else if c == '|' && !s.inFlow then s.block false
  else if c == '>' && !s.inFlow then s.block true
  else if c == '\'' || c == '"' then
    s.node fun cur =>
      (quotedText (c == '"') (cur.rest.length + 1) cur.step []).map fun (text, cur) =>
        (.scalar text false, cur)
  else if s.beginsPlain c next then s.plain
  else none

/-- The length of the blanks, comments and line ends that a text begins with, added to `n`, and whether
there is a line end among them. -/
def gap : List Char → (inComment : Bool) → (n : Nat) → (crossed : Bool) → Nat × Bool
  | [], _, n, crossed => (n, crossed)
  | c :: rest, inComment, n, crossed =>
    if isBreak c then gap rest false (n + 1) true
    else if inComment || c == '#' then gap rest true (n + 1) crossed
    else if c == ' ' then gap rest false (n + 1) crossed
    else (n, crossed)

/-- Past the blanks, comments and line ends that come next. Outside of brackets a key may begin on a
new line. -/
def skipGap (s : Cutting) : Cutting :=
  let (n, crossed) := gap s.cursor.rest false 0 false
  { s with
    cursor := s.cursor.skip n
    allowsKey := s.allowsKey || (crossed && !s.inFlow) }

/-- Reads tokens to the end of the text, in at most `fuel` steps. -/
def run : (fuel : Nat) → Cutting → Option (Array Token)
  | 0, _ => none
  | fuel + 1, s => do
    let s ← s.skipGap.dropStale
    let s := s.unwind s.cursor.column
    match s.cursor.next with
    | none => do
      let s ← (s.unwind (-1)).dropKey
      some s.tokens
    | some c => do
      let s ← s.token c
      run fuel s

end Cutting

/-- The tokens of a text; none if it cannot be cut into tokens. -/
def tokens? (text : List Char) : Option (List Token) :=
  if text.any isForbidden then none
  else
    let cursor : Cursor := { rest := text }
    let cursor := if cursor.next == some byteOrderMark then cursor.step else cursor
    (Cutting.run (text.length + 1) { cursor }).map Array.toList

end Vicinity.Yaml
