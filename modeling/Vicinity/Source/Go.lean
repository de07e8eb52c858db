import Vicinity.Source.Error
import Vicinity.Source.Scan
import Vicinity.Symbol.Nesting
import Vicinity.Text.Pattern

/-!
# Symbols of Go sources

Finding the functions, methods, structures and interfaces of a Go source by the headers at the
beginnings of its lines. A declaration reaches to the brace that closes its body, and one without a
body is none. A method's name is given without its receiver.
-/

namespace Vicinity.GoSource

open Vicinity.Text Vicinity.Text.Pattern

/-- Type parameters or arguments in brackets, or none. -/
def typeParameters : Pattern := opt (text "[" ++ .run 0 (· != ']') ++ text "]")

/-- The header of a method, up to its parameters. -/
def methodHeader : Pattern :=
  .lineStart ++ text "func" ++ gap ++ text "(" ++ blanks ++ word ++ gap ++ opt (text "*") ++ word ++
    typeParameters ++ blanks ++ text ")" ++ gap ++ .capture word ++ blanks ++ typeParameters ++
    text "("

/-- The header of a function, up to its parameters. -/
def functionHeader : Pattern :=
  .lineStart ++ text "func" ++ gap ++ .capture word ++ blanks ++ typeParameters ++ text "("

/-- The header of a structure, with the brace of its body. -/
def structHeader : Pattern :=
  .lineStart ++ text "type" ++ gap ++ .capture word ++ typeParameters ++ gap ++ text "struct" ++
    blanks ++ text "\x7b"

/-- The header of an interface, with the brace of its body. -/
def interfaceHeader : Pattern :=
  .lineStart ++ text "type" ++ gap ++ .capture word ++ typeParameters ++ gap ++ text "interface" ++
    blanks ++ text "\x7b"

/-- How many characters after a header its body may begin. -/
def bodyReach : Nat := 500

/-- Looks at a character of code for the brace of a body. -/
def bodyStep (_ : Unit) (i : Nat) (c : Char) (_ : List Char) : Except Nat Unit :=
  if c = '\x7b' then .error i else .ok ()

/-- The offset of the brace that opens the body after a header: the header's last character, or the
first brace in the code after it. -/
def bodyBrace (header : Cursor) : Option Nat :=
  if header.before = some '\x7b' then some (header.offset - 1)
  else match scanCode .go bodyStep (some (header.offset + bodyReach)) header.rest header.offset () with
    | .error brace => some brace
    | .ok _ => none

/-- The symbol that a match of a header declares, if it has a body. -/
def declared? (source : List Char) (kind : SymbolKind) (found : Match) : Option FlatSymbol :=
  (bodyBrace found.stop).map fun brace =>
    let stop := match matchingBrace .go (source.drop brace) brace with
      | some close => close + 1
      | none => source.length
    ⟨String.ofList (found.captured.headD []), kind, positionOfOffset source found.start,
      positionOfOffset source stop⟩

/-- The headers that are looked for, with the kinds of the symbols that they declare, in the order of
precedence. -/
def headers : List (Pattern × SymbolKind) :=
  [(methodHeader, .method), (functionHeader, .function), (structHeader, .struct),
    (interfaceHeader, .interface)]

/-- The symbols that the headers declare, one header after the other; where one has declared a symbol
no later one is looked at. -/
def collect (source : List Char) : List (Pattern × SymbolKind) → List Nat → List FlatSymbol
  | [], _ => []
  | (header, kind) :: more, claimed =>
    let found := (header.findAll source).filterMap fun m =>
      if claimed.contains m.start then none
      else (declared? source kind m).map fun symbol => (m.start, symbol)
    found.map (·.2) ++ collect source more (found.map (·.1) ++ claimed)

/-- The symbols of a Go source in the order of their starts. -/
def symbols (source : String) : Except SourceError (List FlatSymbol) :=
  if source.utf8ByteSize > maxSourceBytes then .error .tooLarge
  else .ok ((collect source.toList headers []).mergeSort FlatSymbol.startLe)

end Vicinity.GoSource
