import Vicinity.Document
import Vicinity.Language
import Vicinity.Text.Pattern

/-!
# Declarations

Expanding a reference, which may be as short as a name, to the declaration that it stands in. The
declaration begins at the nearest line above with a declaration keyword, or at the first line. In the
brace family it ends where the braces counted from there balance; in the indentation family it goes on
up to a line that is indented less. Lines are looked at as plain text: a keyword or a brace in a string
or a comment counts.
-/

namespace Vicinity

open Vicinity.Text Vicinity.Text.Pattern

/-- The beginning of a line that declares a type. -/
def declarationLine : Pattern :=
  blanks ++
    .many (anyOf ["export", "default", "declare", "abstract", "public", "private", "protected",
      "static"] ++ gap) ++
    anyOf ["interface", "type", "class", "enum"] ++ gap ++ word

/-- A declaration keyword and the name after it. -/
def declaredNamePattern : Pattern :=
  .wordEdge ++ anyOf ["interface", "class", "type", "enum"] ++ gap ++ .capture word

/-- The index of the nearest line at or above `line` that declares a type; otherwise 0. -/
def nearestDeclaration (lines : List (List Char)) : Nat → Nat
  | 0 => 0
  | line + 1 =>
    if declarationLine.matchesStart (lines.getD (line + 1) []) then line + 1
    else nearestDeclaration lines line

/-- The line at which the declaration begins that stands around a line, which is taken as the nearest
one there is; -1 if there are no lines. -/
def declarationStart (lines : List (List Char)) (line : Int) : Int :=
  let nearest := min (max line 0) (lines.length - 1)
  if nearest ≤ 0 then nearest else nearestDeclaration lines nearest.toNat

/-- The index of the first line after which an opening brace has been seen and the braces balance,
counting the first line as `i`. -/
def balancingLine (i : Nat) (depth : Int) (seenOpen : Bool) : List (List Char) → Option Nat
  | [] => none
  | line :: more =>
    let opens := line.count '{'
    let depth := depth + opens - line.count '}'
    let seenOpen := seenOpen || opens != 0
    if seenOpen && depth ≤ 0 then some i else balancingLine (i + 1) depth seenOpen more

/-- The first and last line of a brace-delimited declaration around the lines of a reference; if the
braces never balance it ends with the reference. There is none without lines. -/
def braceSlice? (lines : List (List Char)) (first last : Int) : Option (Int × Int) :=
  if lines.isEmpty then none
  else
    let start := declarationStart lines first
    let stop := match balancingLine start.toNat 0 false (lines.drop start.toNat) with
      | some i => (i : Int)
      | none => max last start
    some (start, min stop (lines.length - 1))

/-- The number of blanks that a line begins with. -/
def indentation (line : List Char) : Nat := line.length - (trimStart line).length

/-- The index of the last nonblank line before one that is indented less than `column`, counting the
first line as `i`; `last` if there is none. -/
def lastIndented (column i last : Nat) : List (List Char) → Nat
  | [] => last
  | line :: more =>
    if allBlank line then lastIndented column (i + 1) last more
    else if indentation line < column then last
    else lastIndented column (i + 1) i more

/-- The first and last line of an indentation-delimited declaration around a line. There is none
without lines. -/
def indentationSlice? (lines : List (List Char)) (line : Int) : Option (Int × Int) :=
  if lines.isEmpty then none
  else
    let start := declarationStart lines line
    let column := indentation (lines.getD start.toNat [])
    let below := lines.drop (start.toNat + 1)
    some (start, lastIndented column (start.toNat + 1) start.toNat below)

/-- A declaration's text and the span that it was taken from. -/
structure Declaration where
  text : List Char
  span : Span
  deriving DecidableEq, Repr

/-- First words of text that belongs to the head of a file and to no declaration. -/
def headerMarkers : List String := ["package", "import", "module", "from"]

/-- Expands a reference to the declaration around it. Where that is blank or begins with a header
marker, the reference's own text stands in, unless it is blank too. -/
def expand? (text : List Char) (reference : Span) (family : LanguageFamily) :
    Option Declaration :=
  let lines := Text.lines text
  if reference.start.line ≥ lines.length then none
  else
    let bounds := match family with
      | .indentation => indentationSlice? lines reference.start.line
      | .brace => braceSlice? lines reference.start.line reference.stop.line
    match bounds with
    | none => none
    | some (first, last) =>
      let expanded := trimEnd (unlines (slice lines first (last + 1)))
      if !allBlank expanded && !headerMarkers.contains (String.ofList (firstWord expanded)) then
        some ⟨expanded, .of first 0 last (lines.getD last.toNat []).length⟩
      else
        let short := trim (textIn text reference)
        if short.isEmpty then none else some ⟨short, reference⟩

/-- The name after the first declaration keyword of a text. -/
def declaredName? (text : List Char) : Option (List Char) :=
  (declaredNamePattern.search (.start text)).bind (·.captured.head?)

end Vicinity
