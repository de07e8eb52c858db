import Vicinity.Language.Binding
import Vicinity.Source.Error
import Vicinity.Source.Scan
import Vicinity.Symbol.Nesting
import Vicinity.Text.Letter

/-!
# Symbols of scripts

Finding the functions, classes with their methods, interfaces, enumerations, type aliases and bound
arrow functions of a JavaScript or TypeScript source by the headers at the beginnings of its lines. A
declaration reaches to the brace that closes its body; without a body it ends with its line.
-/

namespace Vicinity.Script

open Vicinity.Text Vicinity.Text.Pattern

/-- The beginning of a line, with the keywords that export what follows. -/
def exported : Pattern :=
  .lineStart ++ opt (text "export" ++ gap ++ opt (text "default" ++ gap))

/-- The header of a function, up to its parameters. -/
def functionHeader : Pattern :=
  exported ++ opt (text "async" ++ gap) ++ text "function" ++ blanks ++ opt (text "*") ++ blanks ++
    .capture word ++ blanks ++ opt (text "<" ++ .run 0 (· != '(') ++ text ">") ++ blanks ++ text "("

/-- The header of a class, up to its name. -/
def classHeader : Pattern :=
  exported ++ opt (text "abstract" ++ gap) ++ text "class" ++ gap ++ .capture word

/-- The header of an interface, up to its name. -/
def interfaceHeader : Pattern := exported ++ text "interface" ++ gap ++ .capture word

/-- The header of an enumeration, up to its name. -/
def enumHeader : Pattern :=
  exported ++ opt (text "declare" ++ gap) ++ opt (text "const" ++ gap) ++ text "enum" ++ gap ++
    .capture word

/-- The header of a type alias at the beginning of a line. -/
def aliasHeader : Pattern :=
  .lineStart ++ Binding.exported ++ text "type" ++ gap ++ .capture word ++ Binding.aliasTail

/-- The header of a bound arrow function at the beginning of a line. -/
def arrowHeader : Pattern :=
  .lineStart ++ Binding.exported ++ .capture Binding.keyword ++ gap ++ .capture word ++
    Binding.arrowTail

/-- The header of a member of a class, from the blanks before it to the brace of its body. -/
def memberHeader : Pattern :=
  .lineStart ++ .capture (.run 1 fun c => c == ' ' || c == '\t') ++
    .many (anyOf ["public", "private", "protected", "static", "async", "readonly", "override",
      "abstract"] ++ gap) ++
    opt (anyOf ["get", "set"] ++ gap) ++ opt (text "*") ++ .capture word ++ blanks ++
    opt (text "<" ++ .run 0 (· != '(') ++ text ">") ++ blanks ++
    text "(" ++ .run 0 (· != ')') ++ text ")" ++ blanks ++
    opt (text ":" ++ blanks ++ .run 1 fun c => c != '\x7b' && c != ';') ++ text "\x7b"

/-- Words that look like the name of a member but are none. -/
def notMembers : List String :=
  ["if", "for", "while", "switch", "catch", "with", "function", "return"]

/-- How many characters after a header its body may begin. -/
def bodyReach : Nat := 500

/-- Looks at a character of code for the brace of a body; a semicolon, or a line feed right before a
letter, shows that there is none. -/
def bodyStep (_ : Unit) (i : Nat) (c : Char) (rest : List Char) : Except (Option Nat) Unit :=
  if c = '\x7b' then .error (some i)
  else if c = ';' || (c = '\n' && rest.head?.any isLetter) then .error none
  else .ok ()

/-- The offset of the brace that opens the body of a declaration whose header ends at an offset, after
which `rest` follows. -/
def bodyBrace (rest : List Char) (offset : Nat) : Option Nat :=
  match scanCode .script bodyStep (some (offset + bodyReach)) rest offset () with
  | .error found => found
  | .ok _ => none

/-- The offset at which a declaration ends whose header ends at an offset, after which `rest`
follows. -/
def declarationEnd (rest : List Char) (offset : Nat) : Nat :=
  match bodyBrace rest offset with
  | some brace =>
    match matchingBrace .script (rest.drop (brace - offset)) brace with
    | some close => close + 1
    | none => offset + rest.length
  | none => offset + (rest.takeWhile (· != '\n')).length

/-- The symbol of a name and a kind from one offset of a source to another. -/
def symbolAt (source : List Char) (name : List Char) (kind : SymbolKind) (start stop : Nat) :
    FlatSymbol :=
  ⟨String.ofList name, kind, positionOfOffset source start, positionOfOffset source stop⟩

/-- The members of a class from the offset `from_` on, whose body ends at `stop`. The search goes on
after a member's body, so that nothing inside it is taken for a member. -/
def members (source : List Char) (from_ stop : Nat) : List FlatSymbol :=
  match memberHeader.search (.ofOffset (source.take stop) from_) with
  | none => []
  | some found =>
    let header := found.stop.offset
    let finish := declarationEnd (source.drop (header - 1)) (header - 1)
    let next := max finish header
    let rest :=
      if h : from_ < next ∧ next ≤ stop then
        have : stop - next < stop - from_ := by omega
        members source next stop
      else []
    match found.captured with
    | [blanks, name] =>
      let name' := String.ofList name
      if notMembers.contains name' then rest
      else
        let kind := if name' = "constructor" then .constructor else .method
        symbolAt source name kind (found.start + blanks.length) finish :: rest
    | _ => rest
termination_by stop - from_

/-- The headers that are looked for, with the kinds of the symbols that they declare, in the order of
precedence. -/
def headers : List (Pattern × SymbolKind) :=
  [(functionHeader, .function), (classHeader, .class), (interfaceHeader, .interface),
    (enumHeader, .enum), (aliasHeader, .variable), (arrowHeader, .variable)]

/-- The symbols that a match of a header declares: its own, and the members of a class. -/
def declared (source : List Char) (kind : SymbolKind) (found : Match) : List FlatSymbol :=
  let header := found.stop.offset
  let finish := declarationEnd found.stop.rest header
  let kind' := match found.captured with
    | ['c', 'o', 'n', 's', 't'] :: _ :: _ => .constant
    | _ => kind
  let own := symbolAt source (found.captured.getLastD []) kind' found.start finish
  own :: if kind = .class then
    match bodyBrace found.stop.rest header with
    | some brace => members source (brace + 1) finish
    | none => []
  else []

/-- The symbols that the headers declare, one header after the other; where one has matched no later
one is looked at. -/
def collect (source : List Char) : List (Pattern × SymbolKind) → List Nat → List FlatSymbol
  | [], _ => []
  | (header, kind) :: more, claimed =>
    let found := (header.findAll source).filter fun m => !claimed.contains m.start
    found.flatMap (declared source kind) ++ collect source more (found.map (·.start) ++ claimed)

/-- The symbols of a script in the order of their starts. -/
def symbols (source : String) : Except SourceError (List FlatSymbol) :=
  if source.utf8ByteSize > maxSourceBytes then .error .tooLarge
  else .ok ((collect source.toList headers []).mergeSort FlatSymbol.startLe)

end Vicinity.Script
