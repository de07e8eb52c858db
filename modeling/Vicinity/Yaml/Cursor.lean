/-!
# Reading YAML text

A place in a YAML text with its line and column, and the classes of characters that structure such a
text. A line ends with a line feed, a carriage return, both together, or one of the separators of
Unicode.
-/

namespace Vicinity.Yaml

/-- A character that ends a line. -/
def isBreak (c : Char) : Bool :=
  c == '\n' || c == '\r' || c == '\x85' || c == '\u2028' || c == '\u2029'

/-- A blank within a line. -/
def isBlank (c : Char) : Bool := c == ' ' || c == '\t'

/-- Whether a word ends before a character or the end of the text. -/
def endsWord (next : Option Char) : Bool :=
  match next with
  | some c => isBlank c || isBreak c
  | none => true

/-- Whether a part of a line ends before a character or the end of the text; a tab does not end it. -/
def endsPart (next : Option Char) : Bool :=
  match next with
  | some c => c == ' ' || isBreak c
  | none => true

/-- A character that a name for a node can hold. -/
def isNameChar (c : Char) : Bool := c.isAlphanum || c == '-' || c == '_'

/-- Whether a text may not be part of a YAML text: it is a control character or no character. -/
def isForbidden (c : Char) : Bool :=
  let n := c.toNat
  !(n == 0x9 || n == 0xa || n == 0xd || (0x20 ≤ n && n ≤ 0x7e) || n == 0x85 ||
    (0xa0 ≤ n && n ≤ 0xfffd) || 0x10000 ≤ n)

/-- The mark that may stand before a text and has no width. -/
def byteOrderMark : Char := '\ufeff'

/-- A place in a text. -/
structure Cursor where
  /-- What follows. -/
  rest : List Char
  /-- The number of characters before. -/
  index : Nat := 0
  line : Nat := 0
  column : Nat := 0

namespace Cursor

/-- The next character. -/
def next (cur : Cursor) : Option Char := cur.rest.head?

/-- Past the next character. -/
def step (cur : Cursor) : Cursor :=
  match cur.rest with
  | [] => cur
  | c :: rest =>
    if isBreak c && !(c == '\r' && rest.head? == some '\n') then
      ⟨rest, cur.index + 1, cur.line + 1, 0⟩
    else if c == byteOrderMark then { cur with rest, index := cur.index + 1 }
    else { cur with rest, index := cur.index + 1, column := cur.column + 1 }

/-- Past the next `n` characters. -/
def skip (cur : Cursor) : Nat → Cursor
  | 0 => cur
  | n + 1 => cur.step.skip n

/-- The characters of a class that come next, and the place after them. -/
def takeWhile (cur : Cursor) (p : Char → Bool) : List Char × Cursor :=
  let found := cur.rest.takeWhile p
  (found, cur.skip found.length)

/-- What the end of a line stands for, if one comes next, and the place after it. All ends stand for a
line feed but for the separators, which stand for themselves. -/
def lineBreak (cur : Cursor) : List Char × Cursor :=
  match cur.rest with
  | '\r' :: '\n' :: _ => (['\n'], cur.skip 2)
  | c :: _ =>
    if c == '\u2028' || c == '\u2029' then ([c], cur.step)
    else if isBreak c then (['\n'], cur.step)
    else ([], cur)
  | [] => ([], cur)

/-- Whether the mark of three characters comes next as a word of its own. -/
def atMark (cur : Cursor) (c : Char) : Bool :=
  [c, c, c].isPrefixOf cur.rest && endsWord (cur.rest.drop 3).head?

/-- Whether a mark comes next that begins or ends a document. -/
def atDocumentMark (cur : Cursor) : Bool := cur.atMark '-' || cur.atMark '.'

/-- Past blanks and a comment to the end of a line; none if anything else stands there. -/
def skipRestOfLine (cur : Cursor) : Option Cursor :=
  let cur := (cur.takeWhile (· == ' ')).2
  let cur := if cur.next == some '#' then (cur.takeWhile (!isBreak ·)).2 else cur
  match cur.next with
  | some c => if isBreak c then some cur.lineBreak.2 else none
  | none => some cur

end Cursor

end Vicinity.Yaml
