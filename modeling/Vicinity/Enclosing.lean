import Vicinity.CodeUnit
import Vicinity.Language.Role
import Vicinity.Symbol.Outline

/-!
# The enclosing unit

Finds the symbol of a document that encloses a position, among those that count as functions (or, if
asked for, as types). For a cursor the largest one is wanted. For a location that a declaration was
reported at, the smallest one is wanted, and only if it starts on the position's line, so that a place
deep inside a large type is not taken for the type.
-/

namespace Vicinity

/-- Which of several enclosing symbols is wanted. -/
inductive Extent where
  | largest
  | smallest
  deriving DecidableEq, Repr

/-- The name of the unit that stands for a whole document. -/
def entireDocument : String := "Entire Document"

/-- Whether an entry of an outline counts: a function, or a type if these are wanted, that is not a
member of an enumeration. -/
def Outline.qualifies (outline : Outline) (languageId : String) (lines : List (List Char))
    (includeTypes : Bool) (entry : OutlineEntry) : Bool :=
  if outline.parentKind entry = some .enum then false
  else
    let text := sliceLines lines entry.span
    isFunctionLike languageId entry.kind text ||
      (includeTypes && isTypeLike languageId entry.kind text)

namespace Extent

/-- Whether a symbol of size `new` is wanted rather than one of size `old`. -/
def prefers : Extent → (new old : Int) → Bool
  | .largest, new, old => old < new
  | .smallest, new, old => new < old

end Extent

/-- The first of the indexed entries whose size no other one's is preferred to. -/
def bestEntry (extent : Extent) :
    List (Nat × OutlineEntry) → Option (Nat × OutlineEntry) → Option (Nat × OutlineEntry)
  | [], best => best
  | new :: more, none => bestEntry extent more (some new)
  | new :: more, some best =>
    if extent.prefers new.2.span.size best.2.span.size then bestEntry extent more (some new)
    else bestEntry extent more (some best)

/-- The entries that contain a position and count, with their indexes. -/
def Outline.enclosing (outline : Outline) (doc : Document) (position : Position)
    (includeTypes : Bool) : List (Nat × OutlineEntry) :=
  let lines := doc.lines
  (outline.entries.zipIdx.map fun (entry, i) => (i, entry)).filter fun (_, entry) =>
    entry.span.contains position && outline.qualifies doc.languageId lines includeTypes entry

/-- The wanted one of the entries that enclose a position, with its index. -/
def Outline.findEnclosing (outline : Outline) (doc : Document) (position : Position)
    (extent : Extent) (includeTypes : Bool) : Option (Nat × OutlineEntry) :=
  match bestEntry extent (outline.enclosing doc position includeTypes) none with
  | none => none
  | some best =>
    if extent = .smallest && best.2.span.start.line != position.line then none else some best

/-- The unit of code that encloses a position. Where no symbol does, the whole document stands in if
`fallback` allows it; but it does not if there is a smallest symbol and it starts on another line. -/
def locate (doc : Document) (symbols : List Symbol) (position : Position) (root : Option String)
    (extent : Extent) (includeTypes fallback : Bool) : Option CodeUnit :=
  let outline := Outline.ofSymbols symbols
  match outline.findEnclosing doc position extent includeTypes with
  | some (_, entry) => some (doc.unitAt entry.name entry.span root)
  | none =>
    if extent = .smallest && !(outline.enclosing doc position includeTypes).isEmpty then none
    else if fallback then some (doc.unitAt entireDocument doc.whole root)
    else none

/-- The order of document places: by start, then by end. -/
def Span.le (s t : Span) : Bool := if s.start = t.start then s.stop.le t.stop else s.start.le t.start

/-- The names and spans of the functions of a document, in document order. -/
def functionSymbols (doc : Document) (symbols : List Symbol) : List (String × Span) :=
  let outline := Outline.ofSymbols symbols
  let lines := doc.lines
  let found := (outline.entries.filter (outline.qualifies doc.languageId lines false)).map
    fun entry => (entry.name, entry.span)
  found.mergeSort fun a b => a.2.le b.2

end Vicinity
