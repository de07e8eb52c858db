/-!
# Arguments

The arguments of a command line are options and positional arguments. An option is named by a word
after two dashes or by a letter after one, and several letters may stand together; an option that takes
a value has it after an equals sign, in the rest of its letters, or in the next argument, whatever that
is. Two dashes alone end the options. `Arguments.ofTexts?` fails where an option is not known, lacks its
value, or has one that it does not take.
-/

namespace Vicinity

/-- An option that a command knows. -/
structure OptionForm where
  /-- The word after two dashes. -/
  name : String
  /-- The letter after one dash. -/
  letter : Option Char := none
  takesValue : Bool := true
  deriving DecidableEq, Repr

/-- The arguments of a command. -/
structure Arguments where
  /-- The names of the options in order, each with its value, which is empty if it takes none. -/
  options : List (String × String) := []
  positional : List String := []
  deriving DecidableEq, Repr

namespace Arguments

/-- The arguments with some options before them. -/
def withOptions (given : List (String × String)) (a : Arguments) : Arguments :=
  { a with options := given ++ a.options }

/-- The arguments with a positional one before them. -/
def withPositional (arg : String) (a : Arguments) : Arguments :=
  { a with positional := arg :: a.positional }

/-- Cuts a text at its first equals sign, if it has one. -/
def splitValue (s : List Char) : String × Option String :=
  let name := s.takeWhile (· != '=')
  (String.ofList name, match s.drop name.length with
    | _ :: value => some (String.ofList value)
    | [] => none)

/-- The options that letters after one dash name, and the name of the last one if its value has yet to
come. -/
def ofLetters? (known : List OptionForm) : List Char → Option (List (String × String) × Option String)
  | [] => some ([], none)
  | c :: rest => do
    let form ← known.find? (·.letter == some c)
    if !form.takesValue then
      let (given, awaited) ← ofLetters? known rest
      some ((form.name, "") :: given, awaited)
    else if rest.isEmpty then some ([], some form.name)
    else some ([(form.name, String.ofList rest)], none)

/-- The options that one argument gives, and the name of the last one if its value has yet to come; the
argument begins with a dash and has more. -/
def ofOption? (known : List OptionForm) (s : List Char) :
    Option (List (String × String) × Option String) :=
  match s with
  | '-' :: '-' :: word => do
    let (name, value) := splitValue word
    let form ← known.find? (·.name == name)
    match value with
    | some value => if form.takesValue then some ([(name, value)], none) else none
    | none => if form.takesValue then some ([], some name) else some ([(name, "")], none)
  | _ => ofLetters? known s.tail

/-- Reads arguments. Options may stand after positional arguments if `mixed` is set; otherwise the first
positional argument ends them. -/
def ofTexts? (known : List OptionForm) (mixed : Bool) : List String → Option Arguments
  | [] => some {}
  | arg :: rest =>
    if arg = "--" then some { positional := rest }
    else if arg.startsWith "-" && arg != "-" then
      match ofOption? known arg.toList with
      | none => none
      | some (given, none) => (ofTexts? known mixed rest).map (·.withOptions given)
      | some (given, some name) =>
        match rest with
        | [] => none
        | value :: more =>
          (ofTexts? known mixed more).map (·.withOptions (given ++ [(name, value)]))
    else if mixed then (ofTexts? known mixed rest).map (·.withPositional arg)
    else some { positional := arg :: rest }

/-- The value of an option, the last one if it is given more than once. -/
def value? (a : Arguments) (name : String) : Option String :=
  (a.options.filter (·.1 == name)).getLast?.map (·.2)

/-- Whether an option is given. -/
def has (a : Arguments) (name : String) : Bool := (a.value? name).isSome

end Arguments

end Vicinity
