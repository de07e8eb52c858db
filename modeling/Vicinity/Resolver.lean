import Vicinity.Candidate
import Vicinity.Config
import Vicinity.Declaration
import Vicinity.Declaration.Comment
import Vicinity.Provider

/-!
# Resolving types

Finding the declarations of types, either of whatever stands at a position (`typesAt`), or of a name
and, as far as the depth allows, of the names that its declaration uses (`resolve`). The names of types
form a graph whose edges are given by the declarations; the walk over it is depth first and visits
each name once. A resolver reads each file once and keeps what it has read. What lies in a library or
outside the workspace is left out, and a question without an answer adds nothing.
-/

namespace Vicinity

open Vicinity.Text Vicinity.Text.Pattern

/-- A capitalized word of at least two characters. -/
def typeNamePattern : Pattern :=
  .wordEdge ++ .capture (.one (fun c => 'A' ≤ c && c ≤ 'Z') ++ word) ++ .wordEdge

/-- The words of a text that look like names of types, each once. -/
def customTypes (text : List Char) : List (List Char) :=
  firstByKey id ((typeNamePattern.findAll text).filterMap (·.captured.head?))

/-- The name of a type whose declaration does not tell it. -/
def unresolvedTypeName : String := "UnknownType"

/-- What resolving depends on: the provider, the workspace root and the settings. -/
structure Resolver (σ : Type) where
  provider : Provider σ
  root : String
  config : Config

/-- What changes while types are resolved: the provider's state, and the texts that have been read. -/
structure ResolverState (σ : Type) where
  world : σ
  texts : List (String × Option String) := []

/-- A computation that may ask the provider and read files. -/
abbrev ResolverM (σ : Type) := StateM (ResolverState σ)

/-- A question to the provider. -/
def ResolverM.ask {σ α : Type} (question : StateM σ α) : ResolverM σ α := fun s =>
  let (a, world) := question s.world
  (a, { s with world })

/-- A resolver of a workspace; its root is written without superfluous slashes and dots. -/
def Resolver.of {σ : Type} (provider : Provider σ) (root : String) (config : Config) : Resolver σ :=
  { provider, root := (Path.parse root).render, config }

namespace Resolver

variable {σ : Type} (r : Resolver σ)

/-- Whether a path is left out: it has a part that marks a library, or it is not below the workspace
root. -/
def isIgnored (path : String) : Bool :=
  let slashed := replaceChar '\\' '/' path.toList
  r.config.ignoreTypePaths.any (fun part => occurs part.toList slashed) ||
    !(Path.parse path).isBelow (Path.parse r.root)

/-- The text of a file as it was when it was first asked for. -/
def read (path : String) : ResolverM σ (Option String) := do
  match (← get).texts.lookup path with
  | some text => return text
  | none =>
    let text ← .ask (r.provider.textOrNone path)
    modify fun s => { s with texts := (path, text) :: s.texts }
    return text

/-- The declaration around a location. -/
def declarationAt (location : Location) : ResolverM σ (Option Declaration) := do
  match ← r.read location.path with
  | some text =>
    let family := languageFamily (languageIdOfPath location.path)
    return expand? text.toList location.span family
  | none => return none

/-- The entry of a type with a declaration. -/
def entryOf (name path : String) (declaration : Declaration) : TypeEntry :=
  let text :=
    if r.config.includeComments then declaration.text
    else Comment.strip (languageFamily (languageIdOfPath path)) declaration.text
  { name, filename := relativePath path (some r.root), text := String.ofList text, path,
    ref := some ⟨path, declaration.span⟩ }

/-! ### By position -/

/-- The entries of the types declared at locations, named by their declarations. -/
def entriesAt : List Location → ResolverM σ (List TypeEntry)
  | [] => return []
  | location :: more => do
    if r.isIgnored location.path then entriesAt more
    else
      match ← r.declarationAt location with
      | none => entriesAt more
      | some declaration =>
        let name := match declaredName? declaration.text with
          | some name => String.ofList name
          | none => unresolvedTypeName
        let rest ← entriesAt more
        return r.entryOf name location.path declaration :: rest

/-- The entries of the types declared where one kind of question leads. -/
def typesBy (what : Lookup) (doc : Document) (position : Position) :
    ResolverM σ (List TypeEntry) := do
  let found ← .ask (r.provider.locations what doc.path position)
  return dedupeTypes (← r.entriesAt found)

/-- The types of what stands at a position: where the definitions of its type are or, if these give
nothing, where it is defined itself. -/
def typesAt (doc : Document) (position : Position) : ResolverM σ (List TypeEntry) := do
  let types ← r.typesBy .typeDefinitions doc position
  if types.isEmpty then r.typesBy .definitions doc position else return types

/-! ### By name -/

/-- The first position of a document at which a text occurs. -/
def firstOccurrence (doc : Document) (name : List Char) : Option Position :=
  doc.lines.zipIdx.findSome? fun (line, i) =>
    (find name line).map fun column => ⟨(i : Int), (column : Int)⟩

/-- The first location that is not left out among the answers to several questions about a position,
which are asked only as long as there is none. -/
def firstAnswer (path : String) (position : Position) : List Lookup → ResolverM σ (Option Location)
  | [] => return none
  | what :: more => do
    let found ← .ask (r.provider.locations what path position)
    match found.find? (fun location => !r.isIgnored location.path) with
    | some location => return some location
    | none => firstAnswer path position more

/-- Where a type is defined, asked about at its first occurrence in each of several documents. -/
def definingLocation (name : List Char) : List Document → ResolverM σ (Option Location)
  | [] => return none
  | doc :: more => do
    match firstOccurrence doc name with
    | none => definingLocation name more
    | some position =>
      match ← r.firstAnswer doc.path position [.typeDefinitions, .definitions] with
      | some location => return some location
      | none => definingLocation name more

/-- What changes during a walk: what the resolver has read, and the names that have been visited. -/
structure Walk (σ : Type) extends ResolverState σ where
  visited : List (List Char) := []

/-- A part of a walk. -/
abbrev WalkM (σ : Type) := StateM (Walk σ)

/-- A step of a walk that visits nothing. -/
def WalkM.read {α : Type} (step : ResolverM σ α) : WalkM σ α := fun s =>
  let (a, t) := step s.toResolverState
  (a, { s with toResolverState := t })

/-- The document in which the names of a declaration are looked for after the origin: the one that
holds the declaration, if it is another one. -/
def declaringDocument (origin : Document) (location : Location) : ResolverM σ (Option Document) := do
  if location.path = origin.path then return none
  else
    match ← r.read location.path with
    | some text => return some ⟨location.path, languageIdOfPath location.path, text⟩
    | none => return none

/-- What has been found for the name of a type. -/
structure Finding where
  name : List Char
  /-- Where the type is defined. -/
  location : Location
  declaration : Declaration
  /-- The document in which the names of the declaration are looked for after the origin. -/
  declaring : Option Document
  deriving DecidableEq, Repr

/-- The names of types that a declaration uses. -/
def Finding.uses (found : Finding) : List (List Char) := customTypes found.declaration.text

/-- What is found for a name, which is looked for in the origin and then in one other document: the
declaration at the place where it is defined. -/
def lookUp (origin : Document) (other : Option Document) (name : List Char) :
    ResolverM σ (Option Finding) := do
  match ← r.definingLocation name (origin :: other.toList) with
  | none => return none
  | some location =>
    match ← r.declarationAt location with
    | none => return none
    | some declaration =>
      let declaring ← r.declaringDocument origin location
      return some { name, location, declaration, declaring }

/-- What is found for a name and for those that its declaration uses, in the order of a depth-first
walk. Names are looked for in the origin and then in one other document; nothing is found without
depth left or for a name visited before. -/
def walk (origin : Document) : (depth : Nat) → (other : Option Document) → (name : List Char) →
    WalkM σ (List Finding)
  | 0, _, _ => return []
  | depth + 1, other, name => do
    if (← get).visited.contains name then return []
    modify fun s => { s with visited := s.visited ++ [name] }
    match ← .read (r.lookUp origin other name) with
    | none => return []
    | some found =>
      let rest ← found.uses.mapM (walk origin depth found.declaring)
      return found :: rest.flatten

/-- The entry of a type that has been found by its name. -/
def entry (found : Finding) : TypeEntry :=
  r.entryOf (String.ofList found.name) found.location.path found.declaration

/-- The entries of a type and, as far as the depth allows, of the types that it uses; with the names
that have been visited afterwards. -/
def resolve (doc : Document) (name : List Char) (depth : Int) (visited : List (List Char)) :
    ResolverM σ (List TypeEntry × List (List Char)) := fun s =>
  let (found, t) := r.walk doc depth.toNat none name { s with visited }
  ((found.map r.entry, t.visited), t.toResolverState)

/-! ### By function -/

/-- The types at the first of several positions that has any. -/
def firstTypesAt (doc : Document) : List Position → ResolverM σ (List TypeEntry)
  | [] => return []
  | position :: more => do
    let types ← r.typesAt doc position
    if types.isEmpty then firstTypesAt doc more else return types

/-- The types of the identifiers that a unit of code uses, each looked up at its positions until one
gives something. -/
def typesForCandidates (doc : Document) (unit : CodeUnit) : ResolverM σ (List TypeEntry) := do
  let found ← unit.candidates.mapM fun candidate => r.firstTypesAt doc candidate.2
  return dedupeTypes found.flatten

/-- The types of the capitalized words of a unit of code and, as far as the depth allows, of those that
these use; one walk visits them all. -/
def typesForFunction (doc : Document) (unit : CodeUnit) (depth : Int) :
    ResolverM σ (List TypeEntry) := fun s =>
  let walks := (customTypes unit.text.toList).mapM (r.walk doc depth.toNat none)
  let (found, t) := walks { s with visited := [] }
  (dedupeTypes (found.flatten.map r.entry), t.toResolverState)

end Resolver

end Vicinity
