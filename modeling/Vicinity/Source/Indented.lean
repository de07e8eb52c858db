import Vicinity.Source.Error
import Vicinity.Source.Indented.Statement
import Vicinity.Source.Indented.Template

/-!
# Symbols of sources with indented blocks

Finding the functions, methods, classes, enumerations and their members of a source whose blocks are
delimited by indentation. The whole source has to follow the grammar.
-/

namespace Vicinity.Indented

/-- The statements of a source; none if it does not follow the grammar. -/
def parse? (source : List Char) : Option (List Statement) := do
  let tokens ← tokens? source
  let phrase ← Rule.file.phrase? tokens
  if goodLiterals (source.length + 2) tokens then some (statements phrase) else none

/-- The symbols of a source in the order of their starts. -/
def symbols (source : String) : Except SourceError (List FlatSymbol) :=
  if source.utf8ByteSize > maxSourceBytes then .error .tooLarge
  else if source.contains '\x00' then .error .nullCharacter
  else match parse? source.toList with
    | some statements => .ok ((symbolsOf false statements).mergeSort FlatSymbol.startLe)
    | none => .error .malformed

end Vicinity.Indented
