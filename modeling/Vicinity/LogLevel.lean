/-!
# Log levels

How much is logged: what the environment says if it names a level, and otherwise what the command
line asks for.
-/

namespace Vicinity

/-- How grave a message must be to be logged. -/
inductive LogLevel where
  | debug
  | info
  | warning
  | error
  deriving DecidableEq, Repr

namespace LogLevel

/-- The name of a level. -/
def name : LogLevel → String
  | debug => "DEBUG"
  | info => "INFO"
  | warning => "WARNING"
  | error => "ERROR"

/-- Every level. -/
def all : List LogLevel := [debug, info, warning, error]

/-- The capital of a letter as far as the names of levels go: an ASCII letter's own, and `I` also for
the dotless small i. -/
def capital (c : Char) : Char := if c = 'ı' then 'I' else c.toUpper

/-- The level that a text names, in which case does not matter. -/
def ofName? (s : String) : Option LogLevel :=
  let s := s.map capital
  all.find? (·.name == s)

/-- The level that holds, given what the environment says and whether the command line asks for more
or for less. -/
def choose (environment : String) (verbose quiet : Bool) : LogLevel :=
  match ofName? environment with
  | some level => level
  | none => if verbose then debug else if quiet then error else warning

end LogLevel

end Vicinity
