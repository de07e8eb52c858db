import Vicinity.Position

/-!
# Tokens

What a source whose blocks are delimited by indentation is made of. Besides words, names, literals and
operators there are tokens for the layout: the end of a logical line, and the beginning and the end of
an indented block.
-/

namespace Vicinity.Indented

/-- The kinds of tokens. -/
inductive TokenKind where
  /-- A name. -/
  | name
  /-- A reserved word or an operator. -/
  | word
  /-- A real number. -/
  | number
  /-- An imaginary number. -/
  | imaginary
  /-- A string literal. -/
  | quoted
  /-- The end of a logical line. -/
  | newline
  /-- The beginning of an indented block. -/
  | indent
  /-- The end of an indented block. -/
  | dedent
  /-- The end of the source. -/
  | ending
  deriving DecidableEq, Repr

/-- Whether tokens of the kind only lay the source out. -/
def TokenKind.isLayout : TokenKind → Bool
  | .newline | .indent | .dedent | .ending => true
  | _ => false

/-- A token with its text and its place. -/
structure Token where
  kind : TokenKind
  text : String
  span : Span
  deriving DecidableEq, Repr

/-- Whether the token is the given reserved word or operator. -/
def Token.isWord (t : Token) (text : String) : Bool := t.kind == .word && t.text == text

/-- The words that are no names. -/
def reservedWords : List String :=
  ["False", "None", "True", "and", "as", "assert", "async", "await", "break", "class", "continue",
    "def", "del", "elif", "else", "except", "finally", "for", "from", "global", "if", "import", "in",
    "is", "lambda", "nonlocal", "not", "or", "pass", "raise", "return", "try", "while", "with",
    "yield"]

/-- The operators and delimiters, the longer ones first. -/
def operators : List String :=
  ["<<=", ">>=", "**=", "//=", "...",
    "==", "!=", "<=", ">=", "<<", ">>", "**", "+=", "-=", "*=", "/=", "%=", "&=", "|=", "^=", "->",
    ":=", "//", "@=",
    "(", ")", "[", "]", "\x7b", "\x7d", ":", ",", ";", "+", "-", "*", "/", "|", "&", "<", ">", "=",
    ".", "%", "~", "^", "@"]

end Vicinity.Indented
