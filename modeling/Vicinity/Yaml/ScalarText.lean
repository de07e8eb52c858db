import Vicinity.Yaml.Cursor

/-!
# The text of scalars

Reading the text that a scalar stands for: plain, in quotes, or as a block of lines. Line ends inside of
a scalar are folded: a single one becomes a blank, and of several all but the first are kept.
-/

namespace Vicinity.Yaml

/-- Joins the parts of a text around line ends: the first one, and those of the blank lines after it. -/
def foldBreaks (first blank : List Char) : List Char :=
  if first == ['\n'] then if blank.isEmpty then [' '] else blank
  else first ++ blank

/-! ### Plain scalars -/

/-- What ends a plain scalar inside of brackets. -/
def flowMarks : List Char := [',', '?', '[', ']', '\x7b', '\x7d']

/-- What ends a plain scalar inside of brackets together with a colon before it. -/
def flowMarksAfterColon : List Char := [',', '[', ']', '\x7b', '\x7d']

/-- The number of characters, added to `n`, of a plain scalar up to the next blank. -/
def plainRun (inFlow : Bool) : List Char → (n : Nat) → Nat
  | [], n => n
  | c :: rest, n =>
    if isBlank c || isBreak c then n
    else if c == ':' && (endsWord rest.head? || (inFlow && rest.head?.any flowMarksAfterColon.contains))
    then n
    else if inFlow && flowMarks.contains c then n
    else plainRun inFlow rest (n + 1)

/-- The line ends of blank lines, added in reverse to those found, and the place after them and the
blanks of the next line; none if a mark of a document comes first. In at most `fuel` steps. -/
def plainBreaks : (fuel : Nat) → Cursor → (found : List Char) → Option (List Char × Cursor)
  | 0, cur, found => some (found.reverse, cur)
  | fuel + 1, cur, found =>
    if cur.next == some ' ' then plainBreaks fuel cur.step found
    else if cur.next.any isBreak then
      let (ends, cur) := cur.lineBreak
      if cur.atDocumentMark then none else plainBreaks fuel cur (ends.reverse ++ found)
    else some (found.reverse, cur)

/-- What the blanks and line ends in a plain scalar stand for, whether there were line ends, and the
place after them. They stand for nothing where the scalar cannot go on after them. -/
def plainSpaces (cur : Cursor) : List Char × Bool × Cursor :=
  let (blanks, cur) := cur.takeWhile (· == ' ')
  if cur.next.any isBreak then
    let (first, cur) := cur.lineBreak
    if cur.atDocumentMark then ([], true, cur)
    else match plainBreaks (cur.rest.length + 1) cur [] with
      | some (blank, cur) => (foldBreaks first blank, true, cur)
      | none => ([], true, cur)
  else (blanks, false, cur)

/-- The text of a plain scalar, whether a line begins after it, and the place after it. Outside of
brackets the scalar goes on in lines that are indented by at least `indent`. In at most `fuel` steps. -/
def plainText (inFlow : Bool) (indent : Nat) : (fuel : Nat) → Cursor → (spaces done : List Char) →
    (atStart : Bool) → List Char × Bool × Cursor
  | 0, cur, _, done, atStart => (done.reverse, atStart, cur)
  | fuel + 1, cur, spaces, done, atStart =>
    let n := plainRun inFlow cur.rest 0
    if cur.next == some '#' || n == 0 then (done.reverse, atStart, cur)
    else
      let done := (cur.rest.take n).reverse ++ (spaces.reverse ++ done)
      let (spaces, crossed, cur) := plainSpaces (cur.skip n)
      if spaces.isEmpty || cur.next == some '#' || (!inFlow && cur.column < indent) then
        (done.reverse, crossed, cur)
      else plainText inFlow indent fuel cur spaces done crossed

/-! ### Scalars in quotes -/

/-- The line ends of blank lines in quotes, added in reverse to those found; none if a mark of a
document stands there. In at most `fuel` steps. -/
def quotedBreaks : (fuel : Nat) → Cursor → (found : List Char) → Option (List Char × Cursor)
  | 0, _, _ => none
  | fuel + 1, cur, found =>
    if cur.atDocumentMark then none
    else
      let cur := (cur.takeWhile isBlank).2
      if cur.next.any isBreak then
        let (ends, cur) := cur.lineBreak
        quotedBreaks fuel cur (ends.reverse ++ found)
      else some (found.reverse, cur)

/-- What the letter of an escape stands for. -/
def escaped? : Char → Option Char
  | '0' => some '\x00'
  | 'a' => some '\x07'
  | 'b' => some '\x08'
  | 't' => some '\t'
  | '\t' => some '\t'
  | 'n' => some '\n'
  | 'v' => some '\x0b'
  | 'f' => some '\x0c'
  | 'r' => some '\r'
  | 'e' => some '\x1b'
  | ' ' => some ' '
  | '"' => some '"'
  | '\\' => some '\\'
  | '/' => some '/'
  | 'N' => some '\x85'
  | '_' => some '\xa0'
  | 'L' => some '\u2028'
  | 'P' => some '\u2029'
  | _ => none

/-- The number of digits of an escape that gives a code point. -/
def escapeDigits? : Char → Option Nat
  | 'x' => some 2
  | 'u' => some 4
  | 'U' => some 8
  | _ => none

/-- The value of a hexadecimal digit. -/
def hexValue? (c : Char) : Option Nat :=
  if c.isDigit then some (c.toNat - '0'.toNat)
  else if 'a' ≤ c ∧ c ≤ 'f' then some (c.toNat - 'a'.toNat + 10)
  else if 'A' ≤ c ∧ c ≤ 'F' then some (c.toNat - 'A'.toNat + 10)
  else none

/-- The value of exactly `n` hexadecimal digits that come next. -/
def hexNumber? (n : Nat) (text : List Char) : Option Nat :=
  let digits := text.take n
  if digits.length = n then
    digits.foldl (fun v c => v.bind fun v => (hexValue? c).map (16 * v + ·)) (some 0)
  else none

/-- What an escape stands for, given what follows the backslash, and the place after it. A number that
is no code point of a character makes it none. -/
def escape? (cur : Cursor) : Option (List Char × Cursor) :=
  match cur.next with
  | none => none
  | some c =>
    match escaped? c, escapeDigits? c with
    | some c, _ => some ([c], cur.step)
    | none, some n =>
      (hexNumber? n (cur.rest.drop 1)).bind fun v =>
        if v.isValidChar then some ([Char.ofNat v], cur.skip (n + 1)) else none
    | none, none =>
      if isBreak c then quotedBreaks (cur.rest.length + 1) cur.lineBreak.2 [] else none

/-- The text of a scalar in quotes, given what follows its opening, and the place after it. In single
quotes a doubled quote stands for one; in double quotes there are escapes. In at most `fuel` steps. -/
def quotedText (double : Bool) : (fuel : Nat) → Cursor → (done : List Char) →
    Option (List Char × Cursor)
  | 0, _, _ => none
  | fuel + 1, cur, done =>
    match cur.rest with
    | [] => none
    | c :: rest =>
      if isBlank c || isBreak c then
        let (blanks, cur) := cur.takeWhile isBlank
        if cur.next.any isBreak then do
          let (first, cur) := cur.lineBreak
          let (blank, cur) ← quotedBreaks (cur.rest.length + 1) cur []
          quotedText double fuel cur ((foldBreaks first blank).reverse ++ done)
        else quotedText double fuel cur (blanks.reverse ++ done)
      else if double && c == '\\' then do
        let (text, cur) ← escape? cur.step
        quotedText double fuel cur (text.reverse ++ done)
      else if !double && c == '\'' && rest.head? == some '\'' then
        quotedText double fuel (cur.skip 2) ('\'' :: done)
      else if c == (if double then '"' else '\'') then some (done.reverse, cur.step)
      else quotedText double fuel cur.step (c :: done)

/-! ### Blocks of lines -/

/-- What becomes of the line ends at the end of a block. -/
inductive Chomping where
  | strip
  | clip
  | keep
  deriving DecidableEq, Repr

/-- The chomping that a sign asks for. -/
def chomping? (c : Option Char) : Option Chomping :=
  match c with
  | some '+' => some .keep
  | some '-' => some .strip
  | _ => none

/-- The digit of an indentation. -/
def indentDigit? (c : Option Char) : Option Nat :=
  c.bind fun c => if c.isDigit then some (c.toNat - '0'.toNat) else none

/-- The chomping and the additional indentation that the head of a block gives, in either order; the
indentation is not zero. -/
def blockHead? (cur : Cursor) : Option (Chomping × Option Nat × Cursor) :=
  let (chomping, digit, cur) := match chomping? cur.next with
    | some chomping =>
      let cur := cur.step
      match indentDigit? cur.next with
      | some n => (chomping, some n, cur.step)
      | none => (chomping, none, cur)
    | none => match indentDigit? cur.next with
      | some n =>
        let cur := cur.step
        match chomping? cur.next with
        | some chomping => (chomping, some n, cur.step)
        | none => (.clip, some n, cur)
      | none => (.clip, none, cur)
  if digit ≠ some 0 ∧ endsPart cur.next then
    cur.skipRestOfLine.map fun cur => (chomping, digit, cur)
  else none

/-- The line ends of the blank lines before the first line of a block, the largest column reached in
them, and the place after them. In at most `fuel` steps. -/
def blockIndent : (fuel : Nat) → Cursor → (found : List Char) → (most : Nat) →
    List Char × Nat × Cursor
  | 0, cur, found, most => (found.reverse, most, cur)
  | fuel + 1, cur, found, most =>
    if cur.next == some ' ' then
      let cur := cur.step
      blockIndent fuel cur found (max most cur.column)
    else if cur.next.any isBreak then
      let (ends, cur) := cur.lineBreak
      blockIndent fuel cur (ends.reverse ++ found) most
    else (found.reverse, most, cur)

/-- Past blanks up to a column. -/
def skipIndent (indent : Nat) (cur : Cursor) : Cursor :=
  cur.skip ((cur.rest.take (indent - cur.column)).takeWhile (· == ' ')).length

/-- The line ends of the blank lines in a block, and the place after them and the indentation of the
next line. In at most `fuel` steps. -/
def blockBreaks (indent : Nat) : (fuel : Nat) → Cursor → (found : List Char) → List Char × Cursor
  | 0, cur, found => (found.reverse, cur)
  | fuel + 1, cur, found =>
    let cur := skipIndent indent cur
    if cur.next.any isBreak then
      let (ends, cur) := cur.lineBreak
      blockBreaks indent fuel cur (ends.reverse ++ found)
    else (found.reverse, cur)

/-- The lines of a block from one on: `breaks` are the line ends of the blank lines before it. Gives
the text in reverse, the end of its last line, the blank lines after it and the place after them. A
folded block joins lines that do not begin with a blank. In at most `fuel` steps. -/
def blockLines (folded : Bool) (indent : Nat) : (fuel : Nat) → Cursor → (breaks done : List Char) →
    List Char × List Char × List Char × Cursor
  | 0, cur, breaks, done => (done, [], breaks, cur)
  | fuel + 1, cur, breaks, done =>
    let leading := !cur.next.any isBlank
    let (text, cur) := cur.takeWhile (!isBreak ·)
    let done := text.reverse ++ (breaks.reverse ++ done)
    let (ending, cur) := cur.lineBreak
    let (breaks, cur) := blockBreaks indent (cur.rest.length + 1) cur []
    if cur.column = indent ∧ cur.next.isSome then
      if folded && ending == ['\n'] && leading && !cur.next.any isBlank then
        blockLines folded indent fuel cur breaks (if breaks.isEmpty then ' ' :: done else done)
      else blockLines folded indent fuel cur breaks (ending.reverse ++ done)
    else (done, ending, breaks, cur)

/-- The text of a block, given what follows the sign that opens it, and the place after it. The block
is indented by more than what is around it. -/
def blockText (folded : Bool) (outer : Int) (cur : Cursor) : Option (List Char × Cursor) := do
  let (chomping, digit, cur) ← blockHead? cur
  let least := max 1 (outer + 1).toNat
  let (breaks, indent, cur) := match digit with
    | some n =>
      let indent := least + n - 1
      let (breaks, cur) := blockBreaks indent (cur.rest.length + 1) cur []
      (breaks, indent, cur)
    | none =>
      let (breaks, most, cur) := blockIndent (cur.rest.length + 1) cur [] 0
      (breaks, max least most, cur)
  let (done, ending, breaks, cur) :=
    if cur.column = indent ∧ cur.next.isSome then
      blockLines folded indent (cur.rest.length + 1) cur breaks []
    else ([], [], breaks, cur)
  let tail := match chomping with
    | .strip => []
    | .clip => ending
    | .keep => ending ++ breaks
  some (done.reverse ++ tail, cur)

end Vicinity.Yaml
