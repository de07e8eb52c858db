import Vicinity.Position

/-!
# Identifiers in a line

Identifiers are runs of ASCII letters, digits, underscores and dollar signs that do not begin with a
digit.
-/

namespace Vicinity

/-- A character that may stand in an identifier. -/
def isIdentifierChar (c : Char) : Bool := c.isAlphanum || c == '_' || c == '$'

/-- A character that an identifier may begin with. -/
def isIdentifierStart (c : Char) : Bool := c.isAlpha || c == '_' || c == '$'

/-- The run of identifier characters around a column, if there is one and it is an identifier. -/
def identifierAt (line : List Char) (column : Int) : Option (List Char) :=
  if column < 0 || column ≥ line.length then none
  else
    let before := ((line.take column.toNat).reverse.takeWhile isIdentifierChar).reverse
    let after := (line.drop column.toNat).takeWhile isIdentifierChar
    if after.isEmpty then none
    else match before ++ after with
      | [] => none
      | c :: rest => if c.isDigit then none else some (c :: rest)

/-- The columns at which a run of ASCII letters begins. -/
def wordStarts (line : List Char) : List Nat := go line 0 false
where
  /-- Goes on at a column, knowing whether the character before it is a letter. -/
  go : List Char → Nat → Bool → List Nat
    | [], _, _ => []
    | c :: rest, column, afterLetter =>
      if c.isAlpha && !afterLetter then column :: go rest (column + 1) true
      else go rest (column + 1) c.isAlpha

end Vicinity
