import Vicinity.Language
import Vicinity.Text.Blank

/-!
# Toolchain versions

Asking a language's toolchain for its version. Only some languages have a command for it, and a command
that fails tells nothing.
-/

namespace Vicinity

/-- What running a command led to. -/
inductive CommandOutcome where
  /-- It could not be run, or did not end in time. -/
  | notRun
  /-- It ended with an exit code after writing to its two outputs. -/
  | ended (exitCode : Int) (standard error : String)
  deriving DecidableEq, Repr

namespace Language

/-- The command that tells the version of a language's toolchain. -/
def versionCommand? : Language → Option (List String)
  | .python => some ["python", "--version"]
  | .go => some ["go", "version"]
  | _ => none

end Language

/-- The command that tells the version for the language with an identifier. -/
def versionCommand? (languageId : String) : Option (List String) :=
  (Language.ofId? languageId).bind Language.versionCommand?

/-- The version that a command has told, on its standard output or, if that is empty, on the other
one. -/
def CommandOutcome.version? : CommandOutcome → Option String
  | .notRun => none
  | .ended exitCode standard error =>
    if exitCode != 0 then none
    else
      let output := Text.trim (if standard.isEmpty then error else standard).toList
      if output.isEmpty then none else some (String.ofList output)

end Vicinity
