import Vicinity.Position
import Vicinity.Source.Lexicon
import Vicinity.Text.Slice

/-!
# Scanning code

Reading a source of the brace family from left to right, passing over its literals and comments.
`scanCode` hands each character of code, with its offset and what follows it, to a step that may end
the scan early; the characters of code themselves and the brace that closes another one are found with
it.
-/

namespace Vicinity

/-- Hands the characters of code to a step, from the given offset up to `stop`, until the step ends
the scan with an error. -/
def scanCode {σ β : Type} (lexicon : Lexicon) (step : σ → Nat → Char → List Char → Except β σ)
    (stop : Option Int) (source : List Char) (offset : Nat) (state : σ) : Except β σ :=
  go source offset offset state
where
  /-- Goes on at an offset; what comes before `resume` has been passed over. -/
  go : List Char → Nat → Nat → σ → Except β σ
    | [], _, _, state => .ok state
    | c :: rest, offset, resume, state =>
      if stop.any (· ≤ (offset : Int)) then .ok state
      else if offset < resume then go rest (offset + 1) resume state
      else match lexicon.opaqueLength? c rest with
        | some n => go rest (offset + 1) (offset + n) state
        | none => match step state offset c rest with
          | .ok state => go rest (offset + 1) resume state
          | .error found => .error found

/-- The characters of code in a source that begins at the offset `start`, with their offsets and up to `stop`. -/
def codeChars (lexicon : Lexicon) (source : List Char) (start : Nat) (stop : Option Int) :
    List (Nat × Char) :=
  let step (found : List (Nat × Char)) (i : Nat) (c : Char) (_ : List Char) :
      Except Empty (List (Nat × Char)) := .ok ((i, c) :: found)
  match scanCode lexicon step stop source start [] with
  | .ok found => found.reverse
  | .error e => nomatch e

/-- Counts braces; ends with the offset at which a closing brace makes the count zero. -/
def countBrace (depth : Int) (i : Nat) (c : Char) (_ : List Char) : Except Nat Int :=
  if c = '\x7b' then .ok (depth + 1)
  else if c = '\x7d' then if depth = 1 then .error i else .ok (depth - 1)
  else .ok depth

/-- The offset of the brace that closes the one at the beginning of `source`, which has the given
offset; none if it stays open. -/
def matchingBrace (lexicon : Lexicon) (source : List Char) (offset : Nat) : Option Nat :=
  match scanCode lexicon countBrace none source offset 0 with
  | .error found => some found
  | .ok _ => none

/-- The line and column after `n` characters of a text that begins at the given line and column. -/
def lineColumnAfter : List Char → (n line column : Nat) → Nat × Nat
  | c :: rest, n + 1, line, column =>
    if c = '\n' then lineColumnAfter rest n (line + 1) 0
    else lineColumnAfter rest n line (column + 1)
  | _, _, line, column => (line, column)

/-- The line and column of an offset in a text. One that lies outside is on the line of the nearest
end, at its distance from the beginning of that line. -/
def positionOfOffset (text : List Char) (offset : Int) : Position :=
  let n := Text.clampIndex text.length offset
  let (line, column) := lineColumnAfter text n 0 0
  ⟨line, offset - (n - column)⟩

end Vicinity
