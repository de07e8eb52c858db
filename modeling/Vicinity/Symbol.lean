import Vicinity.Position

/-!
# Symbols

What a language service reports about a document: a forest of named symbols, each with its kind and
its span.
-/

namespace Vicinity

/-- The kinds of symbols. -/
inductive SymbolKind where
  | file | module | function | method | constructor
  | «class» | interface | struct | enum | enumMember | variable | constant | property | field
  deriving DecidableEq, Repr

namespace SymbolKind

/-- Every kind. -/
def all : List SymbolKind :=
  [.file, .module, .function, .method, .constructor, .class, .interface, .struct,
    .enum, .enumMember, .variable, .constant, .property, .field]

/-- The word that stands for a kind. -/
def name : SymbolKind → String
  | .file => "file"
  | .module => "module"
  | .function => "function"
  | .method => "method"
  | .constructor => "constructor"
  | .class => "class"
  | .interface => "interface"
  | .struct => "struct"
  | .enum => "enum"
  | .enumMember => "enum_member"
  | .variable => "variable"
  | .constant => "constant"
  | .property => "property"
  | .field => "field"

/-- The kind that a word stands for. -/
def ofName? (s : String) : Option SymbolKind := all.find? (·.name == s)

theorem ofName?_name (k : SymbolKind) : ofName? k.name = some k := by
  cases k <;> decide

end SymbolKind

/-- A symbol and the symbols declared inside it. -/
structure Symbol where
  name : String
  kind : SymbolKind
  span : Span
  children : List Symbol := []
  deriving Repr

end Vicinity
