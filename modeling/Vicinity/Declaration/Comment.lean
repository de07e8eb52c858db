import Vicinity.Language
import Vicinity.Text.Blank
import Vicinity.Text.Lines
import Vicinity.Text.Search

/-!
# Comments in declarations

Taking the comments out of a declaration's text. A scan from left to right replaces each comment by
what is kept of it, and goes on after it. In the brace family a comment is a block comment, or a line
comment together with the character before it, which is kept; a line comment right after a backslash
or a colon is none, so that addresses survive. In the indentation family a comment begins at a hash at
the beginning of a line or after a blank. Afterwards lines lose their trailing blanks, and runs of
blank lines collapse.
-/

namespace Vicinity.Comment

open Vicinity.Text

/-- A comment at the beginning of a text: what is kept of it and how many characters it takes. -/
structure Found where
  kept : List Char
  length : Nat
  deriving DecidableEq, Repr

/-- The number of characters before the next line feed or the end. -/
def lineLength (s : List Char) : Nat := (s.takeWhile (· != '\n')).length

/-- Whether a place after the given character is the beginning of a line. -/
def isLineStart (before : Option Char) : Bool := before.all (· == '\n')

/-- The line comment of the brace family that a text begins with, given the character before it. -/
def lineComment (before : Option Char) (s : List Char) : Option Found :=
  match s with
  | '/' :: '/' :: rest =>
    if rest.head? = some '/' then some ⟨['/'], 3 + lineLength rest.tail⟩
    else if isLineStart before then some ⟨[], 2 + lineLength rest⟩
    else none
  | c :: '/' :: '/' :: rest =>
    if c = '\\' || c = ':' then none else some ⟨[c], 3 + lineLength rest⟩
  | _ => none

/-- The comment of the brace family that a text begins with. -/
def braceComment (before : Option Char) (s : List Char) : Option Found :=
  match s with
  | '/' :: '*' :: rest => (find ['*', '/'] rest).map fun i => ⟨[], i + 4⟩
  | _ => lineComment before s

/-- The comment of the indentation family that a text begins with. -/
def hashComment (before : Option Char) (s : List Char) : Option Found :=
  match s with
  | '#' :: rest => if isLineStart before then some ⟨[], 1 + lineLength rest⟩ else none
  | c :: '#' :: rest => if isBlank c then some ⟨[c], 2 + lineLength rest⟩ else none
  | _ => none

/-- The text with every comment replaced by what is kept of it. -/
def replaceAll (comment : Option Char → List Char → Option Found) (s : List Char) : List Char :=
  go s none 0 []
where
  /-- Goes on after the character `before`, with `skip` characters of a comment still to pass and
  the text before in reverse. -/
  go : List Char → Option Char → Nat → List Char → List Char
    | [], _, _, done => done.reverse
    | c :: rest, _, skip + 1, done => go rest (some c) skip done
    | c :: rest, before, 0, done =>
      match comment before (c :: rest) with
      | some found => go rest (some c) (found.length - 1) (found.kept.reverse ++ done)
      | none => go rest (some c) 0 (c :: done)

/-- The lines without those that are empty and come first or after an empty one. -/
def collapseEmpty : Bool → List (List Char) → List (List Char)
  | _, [] => []
  | afterEmpty, line :: more =>
    if line.isEmpty && afterEmpty then collapseEmpty true more
    else line :: collapseEmpty line.isEmpty more

/-- The text with trailing blanks and repeated blank lines taken away. -/
def tidy (s : List Char) : List Char :=
  trim (unlines (collapseEmpty true ((lines s).map trimEnd)))

/-- The text of a declaration without its comments. -/
def strip (family : LanguageFamily) (s : List Char) : List Char :=
  match family with
  | .indentation => tidy (replaceAll hashComment s)
  | .brace => tidy (replaceAll braceComment s)

end Vicinity.Comment
