import Vicinity.Source.Indented.Quoted
import Vicinity.Text.Lines
import Vicinity.Text.NameCharacter

/-!
# The tokens of a source

Cutting a source into tokens. Outside of brackets a line ends with a token and the change of its
indentation begins or ends blocks; inside of brackets, and after a backslash, lines run on. Blank lines
and comments leave no token. Columns count bytes of UTF-8.
-/

namespace Vicinity.Indented

/-- The text that is cut: its line ends are line feeds, and it ends with one. A carriage return and a
line feed at its end leave a blank line. -/
def sourceText (source : List Char) : List Char :=
  let text := Text.unifyLineEnds source
  if text.getLast? = some '\n' ∧ ¬ ['\n', '\r'].isPrefixOf source.reverse then text
  else text ++ ['\n']

/-- The place after a character. -/
def placeAfter (p : Position) (c : Char) : Position :=
  if c = '\n' then ⟨p.line + 1, 0⟩ else ⟨p.line, p.column + c.utf8Size⟩

/-- Where the reading of a source has come to. -/
structure Reader where
  /-- What is still to be read. -/
  rest : List Char
  /-- The place of what is to be read. -/
  place : Position := ⟨0, 0⟩
  /-- The indentation of the open blocks, the innermost first: with tabs to every eighth column, and
  with tabs as single columns. -/
  indents : List (Nat × Nat) := []
  /-- The brackets that close the open ones, the innermost first. -/
  brackets : List Char := []

namespace Reader

/-- Past the next `n` characters. -/
def skip (r : Reader) (n : Nat) : Reader :=
  { r with rest := r.rest.drop n, place := (r.rest.take n).foldl placeAfter r.place }

/-- Reads the next `n` characters as a token. -/
def take (r : Reader) (kind : TokenKind) (n : Nat) : Token × Reader :=
  let next := r.skip n
  (⟨kind, String.ofList (r.rest.take n), ⟨r.place, next.place⟩⟩, next)

/-- A token without text. -/
def layout (r : Reader) (kind : TokenKind) : Token := ⟨kind, "", ⟨r.place, r.place⟩⟩

end Reader

/-! ### Indentation -/

/-- The distance between tab stops. -/
def tabWidth : Nat := 8

/-- The most open blocks. -/
def maxIndents : Nat := 99

/-- The indentation at the beginning of a line in both measures, and the number of its characters; a
form feed begins it anew. Where a backslash joins lines, the first indentation before one counts unless
there was none; a source does not end there. -/
def indentation : List Char → (width narrow fixed n : Nat) → Option (Nat × Nat × Nat)
  | ' ' :: rest, width, narrow, fixed, n =>
    indentation rest (width + 1) (narrow + 1) fixed (n + 1)
  | '\t' :: rest, width, narrow, fixed, n =>
    indentation rest ((width / tabWidth + 1) * tabWidth) (narrow + 1) fixed (n + 1)
  | '\x0c' :: rest, _, _, fixed, n => indentation rest 0 0 fixed (n + 1)
  | '\\' :: '\n' :: c :: rest, width, narrow, fixed, n =>
    indentation (c :: rest) width narrow (if fixed = 0 then width else fixed) (n + 2)
  | '\\' :: _, _, _, _, _ => none
  | _, width, narrow, fixed, n =>
    if fixed = 0 then some (width, narrow, n) else some (fixed, fixed, n)

/-- The open blocks and the tokens of layout after a line with an indentation begins; none if the
indentation fits no open block, or mixes tabs and spaces so that it depends on the width of a tab. -/
def reindent (r : Reader) (width narrow : Nat) : Option (List Token × List (Nat × Nat)) :=
  let (outer, outerNarrow) := r.indents.headD (0, 0)
  if width = outer then if narrow = outerNarrow then some ([], r.indents) else none
  else if outer < width then
    if r.indents.length < maxIndents ∧ outerNarrow < narrow then
      some ([r.layout .indent], (width, narrow) :: r.indents)
    else none
  else
    let kept := r.indents.dropWhile fun block => decide (width < block.1)
    if kept.headD (0, 0) = (width, narrow) then
      some (List.replicate (r.indents.length - kept.length) (r.layout .dedent), kept)
    else none

/-! ### Lines -/

/-- The most open brackets. -/
def maxBrackets : Nat := 200

/-- The bracket that closes one. -/
def closing? : Char → Option Char
  | '(' => some ')'
  | '[' => some ']'
  | '\x7b' => some '\x7d'
  | _ => none

/-- Reads an operator; brackets have to match. -/
def readOperator (r : Reader) : Option (Token × Reader) := do
  let operator ← operators.find? fun operator => operator.toList.isPrefixOf r.rest
  let (token, next) := r.take .word operator.length
  let c ← r.rest.head?
  match closing? c with
  | some close =>
    if r.brackets.length < maxBrackets then
      some (token, { next with brackets := close :: r.brackets })
    else none
  | none =>
    if [')', ']', '\x7d'].contains c then
      if r.brackets.head? = some c then some (token, { next with brackets := r.brackets.tail })
      else none
    else some (token, next)

/-- Reads a name or a reserved word. -/
def readName (r : Reader) : Option (Token × Reader) :=
  let text := r.rest.takeWhile Numeral.joins
  let isGood := match text with
    | c :: rest => Text.isNameStart c && rest.all Text.isNameRest
    | [] => false
  if isGood then
    let kind := if reservedWords.contains (String.ofList text) then .word else .name
    some (r.take kind text.length)
  else none

/-- Reads the token that the text begins with; none if it begins with no token. -/
def readToken (r : Reader) : Option (Token × Reader) :=
  match r.rest with
  | [] => none
  | c :: rest =>
    if c.isDigit || (c == '.' && rest.head?.any (·.isDigit)) then
      let text := r.rest.takeWhile Numeral.mayBelong
      (Numeral.read text).map fun (kind, after) => r.take kind (text.length - after.length)
    else match quotedLetters? r.rest with
      | some n => (quotedLength? (r.rest.drop n)).map fun length => r.take .quoted (n + length)
      | none => if Numeral.joins c then readName r else readOperator r

/-- A blank that separates tokens. -/
def isSeparator (c : Char) : Bool := c == ' ' || c == '\t' || c == '\x0c'

/-- Past the comment that the text begins with, if there is one. -/
def Reader.skipComment (r : Reader) : Reader :=
  if r.rest.head? = some '#' then r.skip (r.rest.takeWhile (· != '\n')).length else r

/-- Reads tokens to the end of the source, in at most `fuel` steps; `atStart` says whether a line
begins. -/
def readTokens : (fuel : Nat) → (atStart : Bool) → Reader → List Token → Option (List Token)
  | 0, _, _, _ => none
  | fuel + 1, true, r, found => do
    let (width, narrow, n) ← indentation r.rest 0 0 0 0
    let line := (r.skip n).skipComment
    if line.rest.head? = some '\n' then readTokens fuel true (line.skip 1) found
    else if r.brackets ≠ [] then readTokens fuel false (r.skip n) found
    else
      let line := r.skip n
      let (layout, indents) ← reindent line width narrow
      readTokens fuel false { line with indents } (layout ++ found)
  | fuel + 1, false, r, found =>
    let r := (r.skip (r.rest.takeWhile isSeparator).length).skipComment
    match r.rest with
    | [] => if r.brackets = [] then some (r.layout .ending :: found) else none
    | '\n' :: _ =>
      if r.brackets = [] then readTokens fuel true (r.skip 1) (r.layout .newline :: found)
      else readTokens fuel true (r.skip 1) found
    | '\\' :: '\n' :: c :: rest =>
      readTokens fuel false { r with rest := c :: rest, place := ⟨r.place.line + 1, 0⟩ } found
    | _ => do
      let (token, r) ← readToken r
      readTokens fuel false r (token :: found)

/-- The tokens of a source; none if it cannot be cut into tokens. -/
def tokens? (source : List Char) : Option (List Token) :=
  let text := sourceText source
  (readTokens (2 * text.length + 2) true { rest := text } []).map List.reverse

end Vicinity.Indented
