import Vicinity.CommandLine.Arguments
import Vicinity.Text.Decimal

/-!
# Commands

What a command line asks for: the context of a position, the context of every function of the
workspace, or the version of the program.
-/

namespace Vicinity

/-- What every extraction can be told; an empty path is none. -/
structure CommandSettings where
  workspace : String := ""
  /-- The file of settings. -/
  config : String := ""
  depth : Option Int := none
  tree : Bool := false
  verbose : Bool := false
  quiet : Bool := false
  deriving DecidableEq, Repr

/-- A command. -/
inductive Command where
  /-- The version of the program. -/
  | version
  /-- The context of a line and a column of a file, both counted from one, perhaps for an error with a
  message. -/
  | context (file : String) (line column : Int) (errorMessage : Option String) (referenced : Bool)
      (settings : CommandSettings)
  /-- The context of every function of the workspace. -/
  | sweep (settings : CommandSettings)
  deriving DecidableEq, Repr

/-- The value of an option that takes a whole number within bounds: none if it is not one, and an inner
none if it is not given. -/
def Arguments.int? (a : Arguments) (name : String) (least : Int) (most : Option Int := none) :
    Option (Option Int) :=
  match a.value? name with
  | none => some none
  | some text => do
    let n ← Text.wholeNumber? text.toList
    if n < least || most.any (· < n) then none else some (some n)

namespace Command

/-- The option of the program itself. -/
def ownOptions : List OptionForm := [{ name := "version", takesValue := false }]

/-- The options of every extraction. -/
def sharedOptions : List OptionForm :=
  [{ name := "workspace", letter := 'w' },
    { name := "config" },
    { name := "depth", letter := 'd' },
    { name := "tree", takesValue := false },
    { name := "verbose", letter := 'v', takesValue := false },
    { name := "quiet", letter := 'q', takesValue := false }]

/-- The options of the context of a position. -/
def contextOptions : List OptionForm :=
  [{ name := "line", letter := 'l' },
    { name := "column", letter := 'c' },
    { name := "error", letter := 'e' },
    { name := "referenced", takesValue := false }] ++ sharedOptions

/-- The largest depth that can be asked for. -/
def maxDepth : Int := 10

/-- The settings that the shared options give. -/
def settings? (a : Arguments) : Option CommandSettings := do
  let depth ← a.int? "depth" 0 (some maxDepth)
  some { workspace := (a.value? "workspace").getD "", config := (a.value? "config").getD "", depth
         tree := a.has "tree", verbose := a.has "verbose", quiet := a.has "quiet" }

/-- The command for the context of a position. -/
def ofContextArguments? (args : List String) : Option Command := do
  let a ← Arguments.ofTexts? contextOptions true args
  let line ← ← a.int? "line" 1
  let column ← a.int? "column" 1
  let settings ← settings? a
  match a.positional with
  | [file] =>
    some (.context file line (column.getD 1) (a.value? "error") (a.has "referenced") settings)
  | _ => none

/-- The command for every function of the workspace. -/
def ofSweepArguments? (args : List String) : Option Command := do
  let a ← Arguments.ofTexts? sharedOptions true args
  let settings ← settings? a
  if a.positional.isEmpty then some (.sweep settings) else none

/-- The command of a command line; none if it is not well formed. -/
def ofTexts? (args : List String) : Option Command := do
  let a ← Arguments.ofTexts? ownOptions false args
  if a.has "version" then some .version
  else match a.positional with
    | "context" :: args => ofContextArguments? args
    | "sweep" :: args => ofSweepArguments? args
    | _ => none

end Command

end Vicinity
