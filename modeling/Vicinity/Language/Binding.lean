import Vicinity.Text.Pattern

/-!
# Bound functions and type aliases

The headers by which a script binds a name to an arrow function, and by which it gives a type a
name. A header's tail is what follows the bound name.
-/

namespace Vicinity.Binding

open Vicinity.Text Vicinity.Text.Pattern

/-- The keyword that makes a declaration visible, with the gap after it. -/
def exported : Pattern := opt (text "export" ++ gap)

/-- What follows the name of an arrow function: an optional type, the equals sign, the parameters, an
optional result type, and the arrow. -/
def arrowTail : Pattern :=
  blanks ++ opt (text ":" ++ blanks ++ .run 1 (· != '=')) ++ text "=" ++ blanks ++
    opt (text "async" ++ gap) ++
    .either (text "(" ++ .run 0 (· != ')') ++ text ")") word ++ blanks ++
    opt (text ":" ++ blanks ++ .run 1 fun c => c != '=' && c != '>' && c != '\n') ++ blanks ++
    text "=>"

/-- The words that bind a name. -/
def keyword : Pattern := anyOf ["const", "let", "var"]

/-- The header of an arrow function bound to a name. -/
def arrowFunction : Pattern :=
  blanks ++ exported ++ opt (keyword ++ gap) ++ word ++ arrowTail

/-- What follows the name of a type alias: optional parameters and the equals sign. -/
def aliasTail : Pattern :=
  blanks ++ opt (text "<" ++ .run 0 (· != '=') ++ text ">") ++ blanks ++ text "="

/-- The header of a type alias. -/
def typeAlias : Pattern :=
  blanks ++ exported ++ text "type" ++ gap ++ word ++ aliasTail

end Vicinity.Binding
