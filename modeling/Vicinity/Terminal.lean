import Vicinity.Text.Lines
import Vicinity.Text.Width

/-!
# Printing

A `Console` says what is written to print a text, and to print a message with tags in it. The one of a
terminal leaves out characters that move the cursor; a tab leads to the next multiple of eight columns
of its line, and the text ends with a line feed of its own.
-/

namespace Vicinity

/-- What is written to print. -/
structure Console where
  /-- What is written to print a text as it is. -/
  text : String → String
  /-- What is written to print a message, parts of which are between tags that say how they are shown;
  none if the message cannot be printed. -/
  message? : String → Option String

namespace Terminal

/-- The distance of tab stops. -/
def tabWidth : Nat := 8

/-- A control character that is not printed: bell, backspace, vertical tab, form feed and carriage
return. -/
def isDropped (c : Char) : Bool := [0x07, 0x08, 0x0b, 0x0c, 0x0d].contains c.toNat

/-- One character more after a column and the text shown so far, in reverse. -/
def showNext (state : Nat × List Char) (c : Char) : Nat × List Char :=
  let (column, done) := state
  if c = '\n' then (0, c :: done)
  else if c = '\t' then
    let gap := tabWidth - column % tabWidth
    (column + gap, List.replicate gap ' ' ++ done)
  else (column + Text.width c, c :: done)

/-- What is shown of a text. -/
def shown (text : List Char) : List Char :=
  ((text.filter (!isDropped ·)).foldl showNext (0, [])).2.reverse

/-- What is written to print a text as it is. -/
def printed (text : String) : String := String.ofList (shown text.toList) ++ "\n"

/-- A message without the tags that colour a part of it. -/
def uncoloured (message : String) : String := (message.replace "[red]" "").replace "[/red]" ""

/-- The console of a terminal without colours. -/
def console : Console where
  text := printed
  message? message := some (printed (uncoloured message))

end Terminal

end Vicinity
