import Vicinity.CodeUnit
import Vicinity.Identifier
import Vicinity.Text.Search

/-!
# Candidate identifiers

The identifiers of a function that are worth asking about as types: every one but keywords, the
function's own name, and what is called somewhere in the text. Each comes with the positions at which
it stands as a whole word.
-/

namespace Vicinity

/-- Words that structure a program, in any of the languages. -/
def structuralKeywords : List String :=
  ["function", "func", "def", "class", "interface", "struct", "enum", "type",
    "return", "if", "else", "elif", "for", "while", "do", "switch", "case",
    "default", "break", "continue", "try", "catch", "except", "finally",
    "throw", "raise", "new", "delete", "in", "of", "is", "not", "and", "or",
    "import", "from", "export", "as", "with", "yield", "await", "async",
    "pass", "lambda", "global", "nonlocal", "del", "assert",
    "const", "let", "var", "static", "public", "private", "protected",
    "readonly", "abstract", "extends", "implements", "package", "go", "defer",
    "select", "chan", "map", "range",
    "self", "this", "super", "cls", "true", "false", "True", "False",
    "None", "null", "undefined", "nil", "void"]

/-- The identifiers of a text in the order in which they stand; digits before one are passed over. -/
def identifiers (s : List Char) : List (List Char) := go s [] []
where
  /-- Goes on with the characters of an unfinished identifier and the finished ones, both in
  reverse. -/
  go : List Char → List Char → List (List Char) → List (List Char)
    | [], [], found => found.reverse
    | [], current, found => (current.reverse :: found).reverse
    | c :: rest, [], found => if isIdentifierStart c then go rest [c] found else go rest [] found
    | c :: rest, current, found =>
      if isIdentifierChar c then go rest (c :: current) found
      else go rest [] (current.reverse :: found)

/-- Whether the word stands somewhere in the text, not right after an identifier character, with an
opening parenthesis after it and only blanks between. -/
def isCalled (word : List Char) (s : List Char) : Bool := go s false
where
  /-- Goes on, knowing whether the character before is an identifier character. -/
  go : List Char → Bool → Bool
    | [], _ => false
    | c :: rest, afterIdentifier =>
      (!afterIdentifier && word.isPrefixOf (c :: rest) &&
        (Text.trimStart ((c :: rest).drop word.length)).head? == some '(') ||
      go rest (isIdentifierChar c)

/-- The identifiers of a text that are worth asking about, each once and in the order of their first
occurrence. -/
def candidateWords (text : List Char) (functionName : List Char) : List (List Char) :=
  (firstByKey id (identifiers text)).filter fun word =>
    !structuralKeywords.contains (String.ofList word) && word != functionName && !isCalled word text

/-- The columns of a line at which a word stands as a whole; occurrences are looked for from left to
right, each after the end of the one before. -/
def wholeWordColumns (word line : List Char) : List Nat := go line 0 none 0
where
  /-- Goes on at a column, knowing the character before it and the column up to which the last
  occurrence reaches. -/
  go : List Char → Nat → Option Char → Nat → List Nat
    | [], _, _, _ => []
    | c :: rest, column, before, resume =>
      if column < resume || !word.isPrefixOf (c :: rest) then
        go rest (column + 1) (some c) resume
      else
        let after := ((c :: rest).drop word.length).head?
        let more := go rest (column + 1) (some c) (column + word.length)
        if before.any isIdentifierChar || after.any isIdentifierChar then more else column :: more

/-- The positions in the document at which a word stands as a whole in a unit of code. -/
def CodeUnit.positionsOf (unit : CodeUnit) (word : List Char) : List Position :=
  (Text.lines unit.text.toList).zipIdx.flatMap fun (line, i) =>
    (wholeWordColumns word line).map fun (column : Nat) =>
      ⟨unit.span.start.line + i, if i = 0 then unit.span.start.column + column else column⟩

/-- The words of a unit of code that are worth asking about, with their positions; a word that stands
nowhere as a whole is left out. -/
def CodeUnit.candidates (unit : CodeUnit) : List (List Char × List Position) :=
  let words := candidateWords unit.text.toList unit.name.toList
  (words.map fun word => (word, unit.positionsOf word)).filter fun candidate =>
    !candidate.2.isEmpty

end Vicinity
