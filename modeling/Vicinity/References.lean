import Vicinity.Enclosing
import Vicinity.Identifier
import Vicinity.Provider

/-!
# Referenced functions

Collecting the functions and types that a unit of code refers to: at every beginning of a word in its
lines the provider is asked where the word leads, and each location outside of the unit is mapped to
the symbol that is declared there.
-/

namespace Vicinity

/-- What collecting depends on. -/
structure ReferenceCollector (σ : Type) where
  provider : Provider σ
  root : String
  /-- Tells the paths that are left out. -/
  isIgnored : String → Bool
  /-- Whether references are asked for as well. -/
  includeReferences : Bool

/-- What changes while references are collected: the provider's state, and the documents that have
been opened. -/
structure CollectorState (σ : Type) where
  world : σ
  documents : List (String × Option Document) := []

/-- A computation that may ask the provider and open documents. -/
abbrev CollectorM (σ : Type) := StateM (CollectorState σ)

/-- A question to the provider. -/
def CollectorM.ask {σ α : Type} (question : StateM σ α) : CollectorM σ α := fun s =>
  let (a, world) := question s.world
  (a, { s with world })

/-- Whether a location lies within the lines of a unit of code. -/
def CodeUnit.holds (unit : CodeUnit) (location : Location) : Bool :=
  location.path = unit.path && unit.span.start.line ≤ location.span.start.line &&
    location.span.stop.line ≤ unit.span.stop.line

/-- The positions of a document's lines from one to another at which a word begins. -/
def wordStartsBetween (doc : Document) (first last : Int) : List Position :=
  (doc.lines.zipIdx.filter fun (_, i) => first ≤ (i : Int) && (i : Int) ≤ last).flatMap
    fun (line, i) => (wordStarts line).map fun (column : Nat) => ⟨(i : Int), (column : Int)⟩

namespace ReferenceCollector

variable {σ : Type} (r : ReferenceCollector σ)

/-- The questions about each word. -/
def questions : List Lookup :=
  [.definitions, .declarations, .typeDefinitions] ++
    if r.includeReferences then [.references] else []

/-- The locations to which a position leads, each once. -/
def locationsAt (path : String) (position : Position) : CollectorM σ (List Location) := do
  let found ← r.questions.mapM fun what => .ask (r.provider.locations what path position)
  return firstByKey id found.flatten

/-- A document as it was when it was first asked for. -/
def document (path : String) : CollectorM σ (Option Document) := do
  match (← get).documents.lookup path with
  | some doc => return doc
  | none =>
    let doc ← .ask (r.provider.openDocument path none)
    modify fun s => { s with documents := (path, doc) :: s.documents }
    return doc

/-- The symbol declared at a location: the smallest one there, if it starts on that line. -/
def declaredAt (location : Location) : CollectorM σ (Option CodeUnit) := do
  match ← r.document location.path with
  | none => return none
  | some doc =>
    let symbols ← .ask (r.provider.symbolsOrNone doc.path)
    return locate doc symbols location.span.start (some r.root) .smallest true false

/-- Goes through locations, adding to those seen and to the units found, the latest first. -/
def collectFrom (unit : CodeUnit) : List Location → List Location × List CodeUnit →
    CollectorM σ (List Location × List CodeUnit)
  | [], state => return state
  | location :: more, (seen, found) => do
    if seen.contains location || unit.holds location then collectFrom unit more (seen, found)
    else
      let seen := location :: seen
      if r.isIgnored location.path then collectFrom unit more (seen, found)
      else
        match ← r.declaredAt location with
        | none => collectFrom unit more (seen, found)
        | some declared =>
          if declared.ref = unit.ref then collectFrom unit more (seen, found)
          else collectFrom unit more (seen, declared :: found)

/-- Goes through the positions of words. -/
def collectAt (doc : Document) (unit : CodeUnit) : List Position →
    List Location × List CodeUnit → CollectorM σ (List CodeUnit)
  | [], (_, found) => return found.reverse
  | position :: more, state => do
    let locations ← r.locationsAt doc.path position
    collectAt doc unit more (← r.collectFrom unit locations state)

/-- The units of code that a unit refers to, each declaration once, the unit itself not among them. -/
def collect (doc : Document) (unit : CodeUnit) : CollectorM σ (List CodeUnit) := do
  let starts := wordStartsBetween doc unit.span.start.line unit.span.stop.line
  return firstByKey (·.ref) (← r.collectAt doc unit starts ([], []))

end ReferenceCollector

end Vicinity
