import Vicinity.Bundle.Merge
import Vicinity.Config
import Vicinity.Enclosing
import Vicinity.References
import Vicinity.Resolver

/-!
# Extracting context

The extraction for a position: open the document, locate the enclosing unit of code, resolve the types
that it uses, collect what it refers to, and take a snapshot of the workspace. Types are found through
the unit's identifiers or, where an error message is given, through its capitalized words and theirs in
turn. A sweep extracts the context of every function of the workspace and merges the results; a file
that cannot be read is passed over.
-/

namespace Vicinity

/-- What an extraction depends on: the provider, the disk of its states, the workspace root if there is
one, and the settings. -/
structure Engine (σ : Type) where
  provider : Provider σ
  disk : σ → Disk
  root : Option String
  config : Config

/-- What is asked of an extraction. -/
structure Request where
  path : String
  position : Position
  /-- The message of the error that the extraction is about. -/
  errorMessage : Option String := none
  /-- The identifier of the language if the file extension does not tell it. -/
  languageId : Option String := none
  packages : Packages := []
  runtimeVersion : Option String := none

/-- The largest number of files that a sweep looks at. -/
def maxSweepFiles : Nat := 2000

namespace Engine

/-- An engine for a workspace; an empty root is none. -/
def of {σ : Type} (provider : Provider σ) (disk : σ → Disk) (root : Option String)
    (config : Config) : Engine σ :=
  let root := root.bind fun root =>
    if root.isEmpty then none else some (Path.parse root).render
  { provider, disk, root, config }

variable {σ : Type} (engine : Engine σ)

/-- The snapshot of the workspace. -/
def snapshot (root : String) (s : σ) : FileTree :=
  .ofDisk (engine.disk s) root engine.config.fileTree.exclude engine.config.fileTree.limit

/-- Runs a part of an extraction that resolves types, from a given memory of files read. -/
def resolving {α : Type} (texts : List (String × Option String)) (step : ResolverM σ α) :
    StateM σ (α × List (String × Option String)) := fun s =>
  let (a, t) := step { world := s, texts }
  ((a, t.texts), t.world)

/-- The units of code that a unit refers to, if they are asked for. -/
def referencedUnits (resolver : Resolver σ) (root : String) (doc : Document) (unit : CodeUnit) :
    StateM σ (List CodeUnit) := fun s =>
  if engine.config.referencedFunctions then
    let collector : ReferenceCollector σ :=
      { provider := engine.provider, root, isIgnored := resolver.isIgnored,
        includeReferences := engine.config.includeReferences }
    let (found, t) := collector.collect doc unit { world := s }
    (found, t.world)
  else ([], s)

/-- The context of a position; none without a workspace root or if the document cannot be read. -/
def gather (request : Request) : StateM σ (Option Bundle) := do
  match engine.root with
  | none => return none
  | some root =>
    match ← engine.provider.openDocument request.path request.languageId with
    | none => return none
    | some doc =>
      let symbols ← engine.provider.symbolsOrNone doc.path
      match locate doc symbols request.position (some root) .largest false true with
      | none => return none
      | some unit =>
        let resolver := Resolver.of engine.provider root engine.config
        let (types, _) ← resolving [] <| match request.errorMessage with
          | none => resolver.typesForCandidates doc unit
          | some _ => resolver.typesForFunction doc unit engine.config.depth
        let referenced ← engine.referencedUnits resolver root doc unit
        return some
          { sourceFile := relativePath doc.path (some root)
            line := request.position.line
            focusLines := focusLines doc request.position.line engine.config.focusRadius
            errorMessage := request.errorMessage
            languageId := doc.languageId
            runtimeVersion := request.runtimeVersion
            packages := request.packages
            function := some unit
            referencedFunctions := referenced
            typeDefinitions := types
            touchedFiles := touchedFiles doc.path types referenced
            fileTree := some (engine.snapshot root (← get)) }

/-- The bundles of the functions of a document, each located again by its start. -/
def sweepFunctions (resolver : Resolver σ) (root : String) (doc : Document) (symbols : List Symbol) :
    List (String × Span) → ResolverM σ (List Bundle)
  | [] => return []
  | (_, span) :: more => do
    match locate doc symbols span.start (some root) .smallest false true with
    | none => sweepFunctions resolver root doc symbols more
    | some unit =>
      let types ← resolver.typesForFunction doc unit resolver.config.depth
      let rest ← sweepFunctions resolver root doc symbols more
      return { sourceFile := relativePath doc.path (some root)
               line := span.start.line
               languageId := doc.languageId
               function := some unit
               typeDefinitions := types
               touchedFiles := touchedFiles doc.path types [] } :: rest

/-- The bundles of the functions of a file; none if it cannot be read. -/
def sweepFile (resolver : Resolver σ) (root path : String) : ResolverM σ (List Bundle) := do
  match ← .ask (resolver.provider.askText path) with
  | .error _ => return []
  | .ok text =>
    match ← .ask (resolver.provider.askSymbols path) with
    | .error _ => return []
    | .ok symbols =>
      let doc : Document := ⟨path, languageIdOfPath path, text⟩
      let symbols := symbols.getD []
      sweepFunctions resolver root doc symbols (functionSymbols doc symbols)

/-- The context of every function of the workspace, merged; none without a workspace root. -/
def sweep : StateM σ (Option Bundle) := do
  match engine.root with
  | none => return none
  | some root =>
    let resolver := Resolver.of engine.provider root engine.config
    let files := (engine.disk (← get)).files root engine.config.fileTree.exclude maxSweepFiles
    let paths := files.map fun file => (Path.parse root ++ Path.parse file).render
    let known := paths.filter fun path => (Language.ofPath? path).isSome
    let (bundles, _) ← resolving [] (known.mapM (sweepFile resolver root))
    let merged := Bundle.merge bundles.flatten
    return some { merged with fileTree := some (engine.snapshot root (← get)) }

end Engine

end Vicinity
