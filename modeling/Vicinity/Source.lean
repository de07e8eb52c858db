import Vicinity.Language
import Vicinity.Source.Go
import Vicinity.Source.Indented
import Vicinity.Source.Script

/-!
# Symbols of sources

The languages whose sources are read for symbols.
-/

namespace Vicinity

/-- What reads the sources of a language for symbols, if anything does. -/
def Language.symbolReader? : Language → Option (String → Except SourceError (List FlatSymbol))
  | .javascript | .javascriptReact | .typescript | .typescriptReact => some Script.symbols
  | .go => some GoSource.symbols
  | .python => some Indented.symbols
  | _ => none

/-- What reads the file at a path for symbols, if anything does. -/
def symbolReaderOfPath? (path : String) : Option (String → Except SourceError (List FlatSymbol)) :=
  (Language.ofPath? path).bind Language.symbolReader?

end Vicinity
