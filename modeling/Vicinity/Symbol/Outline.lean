import Vicinity.Symbol

/-!
# Outlines

An outline is a symbol forest flattened in preorder; each entry knows the index of its parent's
entry. Entries are named by handles, which are good only for the outline that gave them out.
-/

namespace Vicinity

/-- A symbol of an outline. -/
structure OutlineEntry where
  name : String
  kind : SymbolKind
  span : Span
  /-- The index of the parent's entry, if the symbol has a parent. -/
  parent : Option Nat
  deriving DecidableEq, Repr

mutual

/-- The entries of a symbol and of those inside it, the first of which has index `base`. -/
def Symbol.entries (parent : Option Nat) (base : Nat) : Symbol → List OutlineEntry
  | ⟨name, kind, span, children⟩ =>
    ⟨name, kind, span, parent⟩ :: Symbol.entriesOfAll (some base) (base + 1) children

/-- The entries of several siblings, the first of which has index `base`. -/
def Symbol.entriesOfAll (parent : Option Nat) (base : Nat) : List Symbol → List OutlineEntry
  | [] => []
  | symbol :: more =>
    let own := symbol.entries parent base
    own ++ Symbol.entriesOfAll parent (base + own.length) more

end

/-- A flattened symbol forest. -/
structure Outline where
  /-- What tells this outline from others. -/
  id : Nat := 0
  entries : List OutlineEntry
  deriving DecidableEq, Repr

/-- Names an entry of one outline. -/
structure OutlineHandle where
  outline : Nat
  index : Int
  deriving DecidableEq, Repr

namespace Outline

/-- The outline of a forest. -/
def ofSymbols (symbols : List Symbol) (id : Nat := 0) : Outline :=
  ⟨id, Symbol.entriesOfAll none 0 symbols⟩

/-- The entry that a handle of this outline names. -/
def entry? (outline : Outline) (handle : OutlineHandle) : Option OutlineEntry :=
  if handle.outline = outline.id && 0 ≤ handle.index then outline.entries[handle.index.toNat]?
  else none

/-- The kind of an entry's parent. -/
def parentKind (outline : Outline) (entry : OutlineEntry) : Option SymbolKind :=
  entry.parent.bind fun i => (outline.entries[i]?).map (·.kind)

end Outline

end Vicinity
