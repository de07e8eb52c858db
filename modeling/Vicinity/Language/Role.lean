import Vicinity.Language
import Vicinity.Language.Binding
import Vicinity.Symbol

/-!
# What a symbol is good for

Which symbols of a language count as functions and which as types. The kind decides, except that
scripts report bound arrow functions and type aliases as plain variables; there the symbol's text
decides. Languages that are not known have neither.
-/

namespace Vicinity

namespace Language

/-- The kinds that are functions in a language. -/
def functionKinds : Language → List SymbolKind
  | .python | .javascript | .javascriptReact | .typescript | .typescriptReact | .cpp =>
    [.function, .method, .constructor]
  | .go | .rust => [.function, .method]
  | .c => [.function]
  | .java | .csharp => [.method, .constructor]

/-- The kinds that are types in a language. -/
def typeKinds : Language → List SymbolKind
  | .python => [.class, .enum]
  | .javascript | .javascriptReact | .typescript | .typescriptReact => [.class, .interface, .enum]
  | .go => [.struct, .interface, .class]
  | .c => [.struct, .enum]
  | .cpp => [.class, .struct, .enum]
  | .java => [.class, .interface, .enum]
  | .csharp => [.class, .interface, .struct, .enum]
  | .rust => [.struct, .enum, .interface]

/-- Whether a language binds functions and types as variables. -/
def isScript : Language → Bool
  | .javascript | .javascriptReact | .typescript | .typescriptReact => true
  | _ => false

/-- Whether a symbol with this kind and text binds what the pattern describes. -/
def binds (language : Language) (pattern : Text.Pattern) (kind : SymbolKind) (text : List Char) :
    Bool :=
  language.isScript && (kind == .variable || kind == .constant) && pattern.matchesStart text

end Language

/-- Whether a symbol counts as a function. -/
def isFunctionLike (languageId : String) (kind : SymbolKind) (text : List Char) : Bool :=
  match Language.ofId? languageId with
  | some language =>
    language.functionKinds.contains kind || language.binds Binding.arrowFunction kind text
  | none => false

/-- Whether a symbol counts as a type. -/
def isTypeLike (languageId : String) (kind : SymbolKind) (text : List Char) : Bool :=
  match Language.ofId? languageId with
  | some language => language.typeKinds.contains kind || language.binds Binding.typeAlias kind text
  | none => false

end Vicinity
