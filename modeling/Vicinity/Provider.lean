import Vicinity.Disk
import Vicinity.Document
import Vicinity.Language
import Vicinity.Symbol

/-!
# Providers

A provider is the language service that an extraction relies on: it knows the texts of documents,
their symbols, and where the thing at a position is defined. Every question changes the provider's
state, and any of them may fail. `Provider.locations`, `Provider.symbolsOrNone` and
`Provider.textOrNone` take a failure for an empty answer, and `Provider.recording` keeps a list of the
questions.
-/

namespace Vicinity

/-- What can be asked about a position. -/
inductive Lookup where
  | definitions
  | typeDefinitions
  | declarations
  | references
  deriving DecidableEq, Repr

/-- A location as a provider answers it. -/
structure RawLocation where
  path : String
  span : Option Span
  deriving DecidableEq, Repr

/-- Why a question has no answer. -/
inductive ProviderFailure where
  /-- The provider does not answer. -/
  | refused
  /-- The document's text cannot be read. -/
  | unreadable (path : String) (cause : ReadError)
  /-- The document cannot be read for symbols. -/
  | noSymbols (path : String) (cause : ReadError)
  deriving DecidableEq, Repr

/-- A provider with states `σ`. -/
structure Provider (σ : Type) where
  /-- The symbols of the document at a path. -/
  askSymbols : String → StateM σ (Except ProviderFailure (Option (List Symbol)))
  /-- The locations to which a position leads. -/
  askLocations : Lookup → String → Position →
    StateM σ (Except ProviderFailure (Option (List (Option RawLocation))))
  /-- The text of the document at a path. -/
  askText : String → StateM σ (Except ProviderFailure String)

/-- A question put to a provider. -/
inductive ProviderCall where
  | symbols (path : String)
  | locations (what : Lookup) (path : String) (position : Position)
  | text (path : String)
  deriving DecidableEq, Repr

namespace Provider

variable {σ : Type}

/-- The provider that also keeps the questions put to it, the first one first. -/
def recording (p : Provider σ) : Provider (σ × List ProviderCall) where
  askSymbols path := fun (s, calls) =>
    let (answer, s) := p.askSymbols path s
    (answer, s, calls ++ [.symbols path])
  askLocations what path position := fun (s, calls) =>
    let (answer, s) := p.askLocations what path position s
    (answer, s, calls ++ [.locations what path position])
  askText path := fun (s, calls) =>
    let (answer, s) := p.askText path s
    (answer, s, calls ++ [.text path])

/-- The location that an answer names, if it has a path and a span. -/
def location? : Option RawLocation → Option Location
  | some ⟨path, some span⟩ => if path.isEmpty then none else some ⟨path, span⟩
  | _ => none

/-- The locations to which a position leads; none if there is no answer. -/
def locations (p : Provider σ) (what : Lookup) (path : String) (position : Position) :
    StateM σ (List Location) := do
  match ← p.askLocations what path position with
  | .ok (some found) => return found.filterMap location?
  | _ => return []

/-- The symbols of a document; none if there is no answer. -/
def symbolsOrNone (p : Provider σ) (path : String) : StateM σ (List Symbol) := do
  match ← p.askSymbols path with
  | .ok (some symbols) => return symbols
  | _ => return []

/-- The text of a document, if there is an answer. -/
def textOrNone (p : Provider σ) (path : String) : StateM σ (Option String) := do
  match ← p.askText path with
  | .ok text => return some text
  | .error _ => return none

/-- The document at a path, in the given language or, without one, in that of its file extension. -/
def openDocument (p : Provider σ) (path : String) (languageId : Option String) :
    StateM σ (Option Document) := do
  match ← p.textOrNone path with
  | some text =>
    let id := match languageId with
      | some id => if id.isEmpty then languageIdOfPath path else id
      | none => languageIdOfPath path
    return some ⟨path, id, text⟩
  | none => return none

end Provider

end Vicinity
