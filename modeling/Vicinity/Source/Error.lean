/-!
# Sources that cannot be read

Why no symbols are found in a source.
-/

namespace Vicinity

/-- Why a source is not read for symbols. -/
inductive SourceError where
  /-- It is too large. -/
  | tooLarge
  /-- It does not follow the grammar of its language. -/
  | malformed
  /-- It holds a null character. -/
  | nullCharacter
  deriving DecidableEq, Repr

/-- The largest number of bytes, in UTF-8, of a source that is read. -/
def maxSourceBytes : Nat := 102400

namespace SourceError

/-- What is said about the error; the place of a syntax error is left out. -/
def message : SourceError → String
  | tooLarge => s!"File exceeds {maxSourceBytes} bytes, skipping parse"
  | malformed => "Python syntax error"
  | nullCharacter => "source code string cannot contain null bytes"

end SourceError

end Vicinity
