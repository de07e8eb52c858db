import Vicinity.Symbol

/-!
# Nesting flat symbols

`nest` makes a forest of flat symbols: in document order, an outer symbol before an inner one that
starts at the same place, each symbol becomes a child of the last open one whose span covers its own.
-/

namespace Vicinity

/-- A symbol found in a source, before nesting. -/
structure FlatSymbol where
  name : String
  kind : SymbolKind
  span : Span
  deriving DecidableEq, Repr

namespace FlatSymbol

/-- Document order: by start, and from the same start the one that ends last comes first. -/
def le (a b : FlatSymbol) : Bool :=
  if a.span.start = b.span.start then b.span.stop.le a.span.stop
  else a.span.start.le b.span.start

/-- Order of the start alone. -/
def startLe (a b : FlatSymbol) : Bool := a.span.start.le b.span.start

end FlatSymbol

/-- A symbol whose children are still being collected, the latest first. -/
structure OpenSymbol where
  symbol : FlatSymbol
  children : List Symbol

namespace OpenSymbol

/-- The finished symbol. -/
def close (s : OpenSymbol) : Symbol :=
  ⟨s.symbol.name, s.symbol.kind, s.symbol.span, s.children.reverse⟩

end OpenSymbol

/-- Closes open symbols, the innermost first, down to one that covers `span`. -/
def closeUntil (span : Span) : List OpenSymbol → List Symbol → List OpenSymbol × List Symbol
  | [], roots => ([], roots)
  | [s], roots => if s.symbol.span.covers span then ([s], roots) else ([], s.close :: roots)
  | s :: parent :: outer, roots =>
    if s.symbol.span.covers span then (s :: parent :: outer, roots)
    else closeUntil span ({ parent with children := s.close :: parent.children } :: outer) roots
termination_by opened => opened.length

/-- Closes every open symbol. -/
def closeAll : List OpenSymbol → List Symbol → List Symbol
  | [], roots => roots
  | [s], roots => s.close :: roots
  | s :: parent :: outer, roots =>
    closeAll ({ parent with children := s.close :: parent.children } :: outer) roots
termination_by opened => opened.length

/-- The forest of the symbols in this order; finished roots are kept latest first. -/
def nestOrdered : List FlatSymbol → List OpenSymbol → List Symbol → List Symbol
  | [], opened, roots => (closeAll opened roots).reverse
  | symbol :: more, opened, roots =>
    let (opened, roots) := closeUntil symbol.span opened roots
    nestOrdered more (⟨symbol, []⟩ :: opened) roots

/-- The forest of flat symbols given in any order. -/
def nest (symbols : List FlatSymbol) : List Symbol :=
  nestOrdered (symbols.mergeSort FlatSymbol.le) [] []

end Vicinity
