import Vicinity.Text.Search

/-!
# Literals and comments

How far a literal or a comment reaches in a source of the brace family. A lexicon says which quotes
begin a literal and which kind: one with backslash escapes, one without, or a template whose holes hold
code. `Lexicon.opaqueLength?` measures the literal or comment at the beginning of a text; one that is
not closed reaches to the end.
-/

namespace Vicinity

/-- The quotes of a language. -/
structure Lexicon where
  /-- Quotes of literals in which a backslash escapes the next character. -/
  escaped : List Char
  /-- Quotes of literals without escapes. -/
  raw : List Char := []
  /-- The quote of templates, in which a dollar sign and a brace open a hole. -/
  template : Option Char := none
  deriving DecidableEq, Repr

namespace Lexicon

/-- The lexicon of scripts. -/
def script : Lexicon := { escaped := ['\'', '"'], template := some '`' }

/-- The lexicon of Go. -/
def go : Lexicon := { escaped := ['"', '\''], raw := ['`'] }

/-- The number of characters, added to `n`, up to and with the quote that closes a literal with
escapes, given what follows its opening. -/
def escapedLength (quote : Char) : List Char → (n : Nat) → Nat
  | [], n => n
  | ['\\'], n => n + 1
  | '\\' :: _ :: rest, n => escapedLength quote rest (n + 2)
  | c :: rest, n => if c = quote then n + 1 else escapedLength quote rest (n + 1)

/-- The number of characters, added to `n`, up to and with the brace that closes a hole, given what
follows its opening, after passing `skip` characters. Braces nest in a hole, and its quoted literals
are passed over. -/
def holeLength (lexicon : Lexicon) : List Char → (skip depth n : Nat) → Nat
  | [], _, _, n => n
  | _ :: rest, skip + 1, depth, n => holeLength lexicon rest skip depth (n + 1)
  | c :: rest, 0, depth, n =>
    if c ∈ lexicon.escaped then holeLength lexicon rest (escapedLength c rest 0) depth (n + 1)
    else if c = '\x7b' then holeLength lexicon rest 0 (depth + 1) (n + 1)
    else if c = '\x7d' then
      if depth ≤ 1 then n + 1 else holeLength lexicon rest 0 (depth - 1) (n + 1)
    else holeLength lexicon rest 0 depth (n + 1)

/-- The number of characters, added to `n`, up to and with the quote that closes a template, given what
follows its opening, after passing `skip` characters. -/
def templateLength (lexicon : Lexicon) (quote : Char) : List Char → (skip n : Nat) → Nat
  | [], _, n => n
  | _ :: rest, skip + 1, n => templateLength lexicon quote rest skip (n + 1)
  | c :: rest, 0, n =>
    if c = '\\' then templateLength lexicon quote rest 1 (n + 1)
    else if c = quote then n + 1
    else match c, rest with
      | '$', '\x7b' :: hole =>
        templateLength lexicon quote rest (1 + holeLength lexicon hole 0 1 0) (n + 1)
      | _, _ => templateLength lexicon quote rest 0 (n + 1)

/-- The length of the literal or comment that a nonempty text begins with; none if it begins with
code. A line comment ends before its line feed. -/
def opaqueLength? (lexicon : Lexicon) (c : Char) (rest : List Char) : Option Nat :=
  match c, rest with
  | '/', '/' :: comment => some (2 + (comment.takeWhile (· != '\n')).length)
  | '/', '*' :: comment =>
    match Text.find ['*', '/'] comment with
    | some i => some (i + 4)
    | none => some (2 + comment.length)
  | _, _ =>
    if c ∈ lexicon.escaped then some (1 + escapedLength c rest 0)
    else if c ∈ lexicon.raw then
      match Text.find [c] rest with
      | some i => some (i + 2)
      | none => some (1 + rest.length)
    else if lexicon.template = some c then some (1 + templateLength lexicon c rest 0 0)
    else none

end Lexicon

end Vicinity
