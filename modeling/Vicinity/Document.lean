import Vicinity.Position
import Vicinity.Text.Blank
import Vicinity.Text.Lines
import Vicinity.Text.Slice

/-!
# Documents

A document is a text with its path and its language. `textIn` cuts a span out of a text: lines are
clamped to the text, and columns are slice indexes within their line.
-/

namespace Vicinity

/-- The part of a list of lines that a span covers; nothing if the span begins after the last
line. -/
def sliceLines (lines : List (List Char)) (s : Span) : List Char :=
  if lines.isEmpty || s.start.line ≥ lines.length then []
  else
    let first := (max s.start.line 0).toNat
    let last := min s.stop.line (lines.length - 1 : Int)
    if last < first then []
    else
      let last := last.toNat
      let lastLine := lines.getD last []
      let stopColumn := if (last : Int) = s.stop.line then s.stop.column else lastLine.length
      if first = last then Text.slice lastLine s.start.column stopColumn
      else
        Text.unlines <|
          Text.sliceFrom (lines.getD first []) s.start.column ::
            ((lines.take last).drop (first + 1) ++ [Text.sliceTo lastLine stopColumn])

/-- The part of a text that a span covers. -/
def textIn (text : List Char) (s : Span) : List Char := sliceLines (Text.lines text) s

/-- A text with its path and the identifier of its language. -/
structure Document where
  path : String
  languageId : String
  text : String
  deriving DecidableEq, Repr

namespace Document

/-- The lines of the document. -/
def lines (doc : Document) : List (List Char) := Text.lines doc.text.toList

/-- The number of lines. -/
def lineCount (doc : Document) : Nat := doc.lines.length

/-- A line without carriage returns at its end; empty outside the document. -/
def lineAt (doc : Document) (line : Int) : List Char :=
  if line < 0 then [] else Text.trimEndWhile (· == '\r') (doc.lines.getD line.toNat [])

/-- The part of the document that a span covers. -/
def textIn (doc : Document) (s : Span) : String := String.ofList (sliceLines doc.lines s)

/-- The span from the first character to the end of the last line. -/
def whole (doc : Document) : Span :=
  let lines := doc.lines
  .of 0 0 (lines.length - 1 : Int) (lines.getLast?.getD []).length

end Document

end Vicinity
