import Vicinity.Bundle

/-!
# Merging bundles

Merging the bundles of several extractions into one. Texts are joined or the first one is taken, and
units of code and types are kept once for each declaration: two that share a name and a file but were
declared at different places both stay.
-/

namespace Vicinity

/-- What tells two units of code apart: their declarations, or everything if they have none. -/
def CodeUnit.identity (u : CodeUnit) : Location ⊕ CodeUnit :=
  match u.ref with
  | some location => .inl location
  | none => .inr u

/-- What tells two entries of types apart: their declarations, or everything if they have none. -/
def TypeEntry.identity (t : TypeEntry) : Location ⊕ TypeEntry :=
  match t.ref with
  | some location => .inl location
  | none => .inr t

/-- Keeps the first unit of code of each declaration. -/
def dedupeUnits (units : List CodeUnit) : List CodeUnit := firstByKey CodeUnit.identity units

/-- Keeps the first entry of each declaration of a type. -/
def dedupeDeclarations (types : List TypeEntry) : List TypeEntry :=
  firstByKey TypeEntry.identity types

/-- Whether a text holds anything but blanks. -/
def hasText (s : String) : Bool := !Text.allBlank s.toList

/-- The texts that are not blank, with a separator between each two. -/
def joinTexts (separator : String) (texts : List String) : String :=
  separator.intercalate (texts.filter hasText)

/-- The identifiers of languages that a comma-separated text holds. -/
def languageIds (s : String) : List String :=
  (((Text.splitOn ',' s.toList).map Text.trim).filter (!·.isEmpty)).map String.ofList

namespace Bundle

/-- The bundles merged, in the order in which they are given. -/
def merge (bundles : List Bundle) : Bundle :=
  match bundles with
  | [] => {}
  | first :: _ =>
    let errors := joinTexts "; " (bundles.filterMap (·.errorMessage))
    { sourceFile := first.sourceFile
      line := first.line
      focusLines := joinTexts "\n" (bundles.map (·.focusLines))
      errorMessage := if errors.isEmpty then none else some errors
      languageId := ",".intercalate
        (firstByKey id (bundles.flatMap fun b => languageIds b.languageId))
      runtimeVersion := (bundles.filterMap (·.runtimeVersion)).find? (!·.isEmpty)
      packages := bundles.foldl (fun packages b => packages.update b.packages) []
      function := (bundles.filterMap (·.function)).find? fun u => hasText u.text
      referencedFunctions := dedupeUnits (bundles.flatMap (·.referencedFunctions))
      typeDefinitions := dedupeDeclarations (bundles.flatMap (·.typeDefinitions))
      touchedFiles := pathSet (bundles.flatMap (·.touchedFiles))
      fileTree := (bundles.filterMap (·.fileTree)).find? fun tree => !tree.children.isEmpty }

end Bundle

end Vicinity
