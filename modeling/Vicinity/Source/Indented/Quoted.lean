import Vicinity.Source.Indented.Numeral

/-!
# String literals

How far a string literal reaches, what its letters before the quote say about it, and which escapes
its text may hold. A literal is in single or in triple quotes; a backslash always takes the next
character with it, whether or not the literal has escapes.
-/

namespace Vicinity.Indented

/-- What the letters before the quote of a literal say about it. -/
structure QuotedForm where
  /-- A backslash stands for itself. -/
  isRaw : Bool := false
  /-- The literal stands for bytes. -/
  isBytes : Bool := false
  /-- Braces hold expressions. -/
  isTemplate : Bool := false
  deriving DecidableEq, Repr

/-- What lower-case letters before a quote mean, if they may stand there. -/
def quotedForm? : List Char → Option QuotedForm
  | [] => some {}
  | ['u'] => some {}
  | ['r'] => some { isRaw := true }
  | ['b'] => some { isBytes := true }
  | ['b', 'r'] => some { isRaw := true, isBytes := true }
  | ['r', 'b'] => some { isRaw := true, isBytes := true }
  | ['f'] => some { isTemplate := true }
  | ['f', 'r'] => some { isRaw := true, isTemplate := true }
  | ['r', 'f'] => some { isRaw := true, isTemplate := true }
  | _ => none

/-- A quotation mark. -/
def isQuote (c : Char) : Bool := c == '\'' || c == '"'

/-- The number of characters, added to `n`, up to and with the quote that ends a literal in single
quotes, given what follows its opening. It ends on its line, unless a backslash takes the line feed. -/
def singleLength? (quote : Char) : List Char → (n : Nat) → Option Nat
  | '\\' :: _ :: rest, n => singleLength? quote rest (n + 2)
  | c :: rest, n =>
    if c == quote then some (n + 1)
    else if c == '\n' then none
    else singleLength? quote rest (n + 1)
  | [], _ => none

/-- The number of characters, added to `n`, up to and with the quotes that end a literal in triple
quotes, given what follows its opening. -/
def tripleLength? (quote : Char) : List Char → (n : Nat) → Option Nat
  | '\\' :: _ :: rest, n => tripleLength? quote rest (n + 2)
  | a :: b :: c :: rest, n =>
    if a == quote && b == quote && c == quote then some (n + 3)
    else tripleLength? quote (b :: c :: rest) (n + 1)
  | _, _ => none

/-- The length of the literal that a text begins with, letters apart. -/
def quotedLength? : List Char → Option Nat
  | a :: b :: c :: rest =>
    if a == b && b == c then tripleLength? a rest 3
    else if a == b then some 2
    else singleLength? a (b :: c :: rest) 1
  | [a, b] => if a == b then some 2 else none
  | _ => none

/-- The number of letters of a literal that a text begins with; none if it begins with no literal. -/
def quotedLetters? (text : List Char) : Option Nat :=
  (List.range 3).find? fun n =>
    (quotedForm? ((text.take n).map Char.toLower)).isSome && (text.drop n).head?.any isQuote

/-- The form and the text of a literal. -/
def quotedContent (literal : List Char) : QuotedForm × List Char :=
  let letters := literal.takeWhile (!isQuote ·)
  let quotes := if literal.length ≥ letters.length + 6 ∧
      (literal.drop letters.length).head? = (literal.drop (letters.length + 1)).head? then 3 else 1
  ((quotedForm? (letters.map Char.toLower)).getD {},
    (literal.drop (letters.length + quotes)).take (literal.length - letters.length - 2 * quotes))

/-! ### Escapes -/

/-- The value of a hexadecimal digit. -/
def hexValue (c : Char) : Nat :=
  if c.isDigit then c.toNat - '0'.toNat else c.toLower.toNat - 'a'.toNat + 10

/-- What follows `n` hexadecimal digits that do not exceed a bound, if a text begins with them. -/
def afterHex (n bound : Nat) (text : List Char) : Option (List Char) :=
  let digits := text.take n
  if digits.length = n ∧ digits.all isHexDigit ∧
      digits.foldl (fun v c => 16 * v + hexValue c) 0 ≤ bound
  then some (text.drop n) else none

/-- A character of the names that characters have. -/
def isCharacterNameChar (c : Char) : Bool :=
  c.isAlphanum || c == ' ' || c == '-'

/-- What follows the name of a character in braces. Every text of the form of a name counts. -/
def afterCharacterName : List Char → Option (List Char)
  | '\x7b' :: rest =>
    let name := rest.takeWhile isCharacterNameChar
    match rest.dropWhile isCharacterNameChar with
    | '\x7d' :: rest => if name.isEmpty then none else some rest
    | _ => none
  | _ => none

/-- What follows an escape's argument, given its letter. A letter that means nothing takes none. -/
def afterEscape (isBytes : Bool) (letter : Char) (rest : List Char) : Option (List Char) :=
  if letter == 'x' then afterHex 2 0xff rest
  else if isBytes then some rest
  else if letter == 'u' then afterHex 4 0xffff rest
  else if letter == 'U' then afterHex 8 0x10ffff rest
  else if letter == 'N' then afterCharacterName rest
  else some rest

/-- Whether the escapes in a text are complete. -/
def hasGoodEscapes (isBytes : Bool) (text : List Char) : Bool :=
  go text text.length
where
  /-- Checks a text in at most `fuel` steps. -/
  go : List Char → Nat → Bool
    | '\\' :: letter :: rest, fuel + 1 =>
      match afterEscape isBytes letter rest with
      | some rest => go rest fuel
      | none => false
    | _ :: rest, fuel + 1 => go rest fuel
    | _, _ => true

end Vicinity.Indented
