import Vicinity.CodeUnit
import Vicinity.FileTree

/-!
# Bundles

A bundle is what an extraction gives: the unit of code around a position, the types it uses, the
functions it refers to, and what is known about their surroundings.
-/

namespace Vicinity

/-- Package names with their versions, in the order in which the names were first given. -/
abbrev Packages := List (String × String)

/-- The packages with one more; a name that is there already keeps its place and takes the new
version. -/
def Packages.insert : Packages → String × String → Packages
  | [], new => [new]
  | package :: more, new =>
    if package.1 = new.1 then (package.1, new.2) :: more else package :: Packages.insert more new

/-- The packages with several more. -/
def Packages.update (packages more : Packages) : Packages := more.foldl Packages.insert packages

/-- A set of paths: in order and each once. -/
def pathSet (paths : List String) : List String := firstByKey id (sortedTexts paths)

theorem mem_pathSet {paths : List String} {path : String} : path ∈ pathSet paths ↔ path ∈ paths := by
  have hkeys : path ∈ (firstByKey id (sortedTexts paths)).map id ↔
      path ∈ (sortedTexts paths).map id := mem_map_firstByKey
  rw [List.map_id, List.map_id] at hkeys
  unfold pathSet
  rw [hkeys, mem_sortedTexts]

theorem nodup_pathSet (paths : List String) : (pathSet paths).Nodup := by
  have h := nodup_firstByKey id (sortedTexts paths)
  rwa [List.map_id] at h

theorem sorted_pathSet (paths : List String) : (pathSet paths).Pairwise (· ≤ ·) :=
  (pairwise_sortedTexts paths).sublist (firstByKey_sublist id _)

/-- A list in order and without repetition is its own set. -/
theorem pathSet_of_sorted {paths : List String} (hsorted : paths.Pairwise (· ≤ ·))
    (hnodup : paths.Nodup) : pathSet paths = paths := by
  rw [pathSet, sortedTexts_of_pairwise hsorted]
  exact firstByKey_of_nodup (by rwa [List.map_id])

/-- The context of a position, or of several. -/
structure Bundle where
  /-- The document's path as seen from the workspace root. -/
  sourceFile : String := ""
  line : Int := 0
  /-- The lines around the focus line. -/
  focusLines : String := ""
  errorMessage : Option String := none
  /-- The identifier of the language, or several with commas between. -/
  languageId : String := ""
  runtimeVersion : Option String := none
  packages : Packages := []
  /-- The enclosing unit of code. -/
  function : Option CodeUnit := none
  referencedFunctions : List CodeUnit := []
  typeDefinitions : List TypeEntry := []
  /-- The paths of the files that text was taken from, in order and each once. -/
  touchedFiles : List String := []
  fileTree : Option FileTree := none

/-- The set of the files that text was taken from: a document's own, and those of the types and units
that were found, as far as they have one. -/
def touchedFiles (origin : String) (types : List TypeEntry) (units : List CodeUnit) : List String :=
  pathSet (origin ::
    ((types.map (·.path)).filter (!·.isEmpty) ++ (units.map (·.path)).filter (!·.isEmpty)))

/-- What marks the focus line. -/
def focusMark : List Char := ['>', '>', '>', ' ']

/-- The lines of a document around a line, which is marked. -/
def focusLines (doc : Document) (line radius : Int) : String :=
  let first := max 0 (line - radius)
  let last := min (doc.lineCount - 1 : Int) (line + radius)
  String.ofList <| Text.unlines <| (doc.lines.zipIdx.filter fun (_, i) =>
      first ≤ (i : Int) && (i : Int) ≤ last).map fun (text, i) =>
    let shown := Text.trimEndWhile (· == '\r') text
    if (i : Int) = line then focusMark ++ shown else shown

end Vicinity
