import Vicinity.Candidate
import Vicinity.Disk.Files
import Vicinity.Language.Role
import Vicinity.Provider
import Vicinity.Source
import Vicinity.Symbol.Nesting

/-!
# The provider of a workspace

A provider that needs no language service: it reads the files of a workspace for symbols and looks
things up by name. The identifier at a position is looked for among the symbols of the same document
and then in an index of the whole workspace, which is made when it is first needed. Texts, symbols and
the index are kept once they have been read.
-/

namespace Vicinity

/-- Which workspace is searched. -/
structure WorkspaceSettings where
  root : String
  /-- Globs of the files that are not indexed. -/
  exclude : List String
  /-- The largest number of files in the index. -/
  indexLimit : Int := 2000
  deriving DecidableEq, Repr

/-- A symbol with its place, and whether it is a type. -/
structure IndexedSymbol where
  name : String
  location : Location
  typeLike : Bool
  deriving DecidableEq, Repr

/-- The symbols of a workspace, and the files that could be read for them. -/
structure WorkspaceIndex where
  symbols : List IndexedSymbol
  files : List String
  deriving DecidableEq, Repr

/-- What the provider of a workspace has read, and the disk that it reads. -/
structure WorkspaceState where
  disk : Disk
  texts : List (String × String) := []
  parsed : List (String × List FlatSymbol) := []
  index : Option WorkspaceIndex := none

/-- A computation that may read files. -/
abbrev WorkspaceM := StateM WorkspaceState

namespace WorkspaceSettings

variable (settings : WorkspaceSettings)

/-- The text of a file as it was when it could first be read. -/
def read (path : String) : WorkspaceM (Except ReadError String) := do
  match (← get).texts.lookup path with
  | some text => return .ok text
  | none =>
    match (← get).disk.readText path with
    | .ok text =>
      modify fun s => { s with texts := (path, text) :: s.texts }
      return .ok text
    | .error e => return .error e

/-- Keeps the symbols of a file. -/
def keep (path : String) (symbols : List FlatSymbol) : WorkspaceM (List FlatSymbol) := do
  modify fun s => { s with parsed := (path, symbols) :: s.parsed }
  return symbols

/-- The symbols of a file. There are none where nothing reads its language, where it is malformed, and
where it is not text. -/
def parse (path : String) : WorkspaceM (Except ReadError (List FlatSymbol)) := do
  match (← get).parsed.lookup path with
  | some symbols => return .ok symbols
  | none =>
    match symbolReaderOfPath? path with
    | none => return .ok (← keep path [])
    | some symbolsOf =>
      match ← read path with
      | .ok text =>
        match symbolsOf text with
        | .ok symbols => return .ok (← keep path symbols)
        | .error _ => return .ok (← keep path [])
      | .error .notText => return .ok (← keep path [])
      | .error e => return .error e

/-- The symbols of a file for the index. -/
def indexed (path : String) : WorkspaceM (Except ReadError (List IndexedSymbol)) := do
  match ← read path with
  | .error e => return .error e
  | .ok text =>
    match ← parse path with
    | .error e => return .error e
    | .ok symbols =>
      let lines := Text.lines text.toList
      let languageId := languageIdOfPath path
      return .ok <| symbols.map fun symbol =>
        ⟨symbol.name, ⟨path, symbol.span⟩,
          isTypeLike languageId symbol.kind (sliceLines lines symbol.span)⟩

/-- Adds files to an index; those that cannot be read are left out. -/
def extendIndex : List String → WorkspaceIndex → WorkspaceM WorkspaceIndex
  | [], index => return index
  | path :: more, index => do
    if (symbolReaderOfPath? path).isNone then extendIndex more index
    else
      match ← indexed path with
      | .error _ => extendIndex more index
      | .ok symbols => extendIndex more ⟨index.symbols ++ symbols, index.files ++ [path]⟩

/-- The path of a file of the workspace, given as seen from its root. -/
def pathOf (file : String) : String := (Path.parse settings.root ++ Path.parse file).render

/-- The index of the workspace as it was when it was first needed. -/
def index : WorkspaceM WorkspaceIndex := do
  match (← get).index with
  | some index => return index
  | none =>
    let root := (Path.parse settings.root).render
    let files := (← get).disk.files root settings.exclude settings.indexLimit
    let index ← extendIndex (files.map settings.pathOf) ⟨[], []⟩
    modify fun s => { s with index := some index }
    return index

/-- The identifier at a position of a file. -/
def identifier (path : String) (position : Position) : WorkspaceM (Except ReadError (Option String)) := do
  match ← read path with
  | .error e => return .error e
  | .ok text =>
    if position.line < 0 then return .ok none
    else match (Text.lines text.toList)[position.line.toNat]? with
      | none => return .ok none
      | some line => return .ok ((identifierAt line position.column).map String.ofList)

/-- The order of locations in different files: by path, then by start. -/
def locationLe (a b : Location) : Bool :=
  if a.path = b.path then a.span.start.le b.span.start else decide (a.path ≤ b.path)

/-- The places where the identifier at a position is declared: those in the same file or, if there are
none, those in the index. -/
def declarations (typesOnly : Bool) (path : String) (position : Position) :
    WorkspaceM (Except ReadError (List Location)) := do
  match ← identifier path position with
  | .error e => return .error e
  | .ok none => return .ok []
  | .ok (some name) =>
    let wanted (symbol : IndexedSymbol) := symbol.name = name && (symbol.typeLike || !typesOnly)
    match ← indexed path with
    | .error e => return .error e
    | .ok symbols =>
      match symbols.filter wanted with
      | [] =>
        let index ← settings.index
        let elsewhere := index.symbols.filter fun symbol =>
          wanted symbol && symbol.location.path != path
        return .ok ((elsewhere.map (·.location)).mergeSort locationLe)
      | own => return .ok (own.map (·.location))

/-- The places in a file at which a word stands as a whole. -/
def placesOf (word : List Char) (path : String) (text : String) : List Location :=
  (Text.lines text.toList).zipIdx.flatMap fun (line, i) =>
    (wholeWordColumns word line).map fun (column : Nat) =>
      ⟨path, .of i column i (column + word.length)⟩

/-- The places at which a word stands as a whole in several files; those that cannot be read are left
out. -/
def placesIn (word : List Char) : List String → WorkspaceM (List Location)
  | [] => return []
  | path :: more => do
    match ← read path with
    | .error _ => placesIn word more
    | .ok text =>
      let rest ← placesIn word more
      return placesOf word path text ++ rest

/-- The places in the file and in the workspace at which the identifier at a position stands. -/
def references (path : String) (position : Position) :
    WorkspaceM (Except ReadError (List Location)) := do
  match ← identifier path position with
  | .error e => return .error e
  | .ok none => return .ok []
  | .ok (some name) =>
    let index ← settings.index
    return .ok (← placesIn name.toList (firstByKey id (path :: index.files)))

/-- The answer to a question about a position. -/
def locations (what : Lookup) (path : String) (position : Position) :
    WorkspaceM (Except ReadError (List Location)) :=
  match what with
  | .definitions | .declarations => settings.declarations false path position
  | .typeDefinitions => settings.declarations true path position
  | .references => settings.references path position

/-- The provider of the workspace. -/
def provider : Provider WorkspaceState where
  askSymbols path := do
    match ← parse path with
    | .ok symbols => return .ok (some (nest symbols))
    | .error e => return .error (.noSymbols path e)
  askLocations what path position := do
    match ← settings.locations what path position with
    | .ok found => return .ok (some (found.map fun l => some ⟨l.path, some l.span⟩))
    | .error e => return .error (.unreadable path e)
  askText path := do
    match ← read path with
    | .ok text => return .ok text
    | .error e => return .error (.unreadable path e)

end WorkspaceSettings

end Vicinity
