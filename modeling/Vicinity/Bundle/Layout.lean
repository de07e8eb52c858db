import Vicinity.Bundle
import Vicinity.Config

/-!
# The layout of a bundle

A bundle as text: labelled sections with blank lines between them, each shown if its switch is on and
there is something to show. Lines are counted from one.
-/

namespace Vicinity

/-- A section: its heading, its lines, and a blank line. -/
def layoutSection (heading : String) (lines : List String) : List String :=
  s!"=== {heading} ===" :: (lines ++ [""])

namespace Bundle

/-- The lines of the section about the environment. -/
def environmentLines (bundle : Bundle) (config : LayoutConfig) : List String :=
  (if bundle.languageId.isEmpty then [] else [s!"Language: {bundle.languageId}"]) ++
    match bundle.runtimeVersion with
    | some version =>
      if config.runtimeVersion && !version.isEmpty then [s!"Version: {version}"] else []
    | none => []

/-- The sections of a bundle, line by line. -/
def layoutLines (bundle : Bundle) (config : LayoutConfig) : List String :=
  let error := match bundle.errorMessage with
    | some message =>
      if message.isEmpty then [] else layoutSection "Error" [s!"Error Message: {message}"]
    | none => []
  let focus :=
    if config.focusedLines && !bundle.focusLines.isEmpty then
      layoutSection "Focus Lines" [bundle.focusLines]
    else []
  let context :=
    if bundle.sourceFile.isEmpty then []
    else layoutSection "Context" [s!"File: {bundle.sourceFile}", s!"Line: {bundle.line + 1}"]
  let environment :=
    if config.environment then layoutSection "Environment" (bundle.environmentLines config) else []
  let packages :=
    if config.packages && !bundle.packages.isEmpty then
      layoutSection "Packages" (bundle.packages.map fun (name, version) => s!"{name}: {version}")
    else []
  let function := match bundle.function with
    | some unit =>
      if config.functionDefinition then
        layoutSection s!"Enclosing Function ({unit.filename})" [unit.text]
      else []
    | none => []
  let types :=
    if config.typeDefinitions && !bundle.typeDefinitions.isEmpty then
      "=== Type Definitions ===" :: bundle.typeDefinitions.flatMap fun t =>
        ["--- Custom Type: \"" ++ t.name ++ "\" (" ++ t.filename ++ ") ---", t.text, ""]
    else []
  let tree := match bundle.fileTree with
    | some tree =>
      if config.fileTree then
        layoutSection "Workspace File Tree" (tree.render bundle.touchedFiles "")
      else []
    | none => []
  let referenced :=
    if config.referencedFunctions && !bundle.referencedFunctions.isEmpty then
      "=== Referenced Functions ===" :: bundle.referencedFunctions.flatMap fun u =>
        [s!"--- {u.name} ({u.filename}) ---", u.text, ""]
    else []
  error ++ focus ++ context ++ environment ++ packages ++ function ++ types ++ tree ++ referenced

/-- The text of a bundle, which ends with exactly one line feed. -/
def layout (bundle : Bundle) (config : LayoutConfig) : String :=
  let text := "\n".intercalate (bundle.layoutLines config)
  String.ofList (Text.trimEndWhile (· == '\n') text.toList) ++ "\n"

end Bundle

end Vicinity
