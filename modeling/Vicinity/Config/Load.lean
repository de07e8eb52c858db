import Vicinity.Config
import Vicinity.Config.Datum
import Vicinity.Config.Fault
import Vicinity.Disk.Reading

/-!
# Loading settings

Settings are loaded from a YAML file of limited length whose root is a mapping; an empty file sets
nothing. No more is read of the file than shows that it is too long. The reader of YAML and the check of
the settings belong to libraries, `ConfigLibraries`.

Each way in which loading can fail is a cause of its own. Most causes are reported to the user with a
message that names the file. The others are not reported as faults of the settings: that the system
does not say whether there is a file, that the bytes are no text, and that a scalar has a form that
promises a value, but no value.
-/

namespace Vicinity

/-! ### Faults -/

/-- Why settings cannot be loaded from a file. -/
inductive LoadFault where
  /-- The system does not say whether the path is a file's. -/
  | unanswered (error : SystemError)
  /-- Nothing has the path. -/
  | missing
  /-- The path is a directory's. -/
  | notFile
  /-- The system does not open the file, or does not read from it. -/
  | unreadable (error : SystemError)
  /-- The bytes are not UTF-8. -/
  | notText
  /-- The text is longer than `maxConfigLength`. -/
  | tooLong
  /-- The text is not YAML. -/
  | malformed
  /-- The text is YAML, but one of its scalars has no value. -/
  | scalar (fault : Yaml.ValueFault)
  /-- The root is a value of this kind and not a mapping. -/
  | notMapping (kind : String)
  /-- Some settings are wrong. -/
  | invalid (errors : List SettingError)
  deriving DecidableEq, Repr

/-- The largest number of characters in a file of settings. -/
def maxConfigLength : Nat := 1024 * 1024

namespace LoadFault

/-- Whether a fault is reported to the user as one of the settings. -/
def isReported : LoadFault → Bool
  | unanswered _ | notText | scalar _ => false
  | _ => true

/-- The message that reports a fault of the file with a path, with the details that the reader of YAML
or the check of the settings may add. -/
def message? (path : String) (details : String := "") : LoadFault → Option String
  | missing => some ("Config file not found: " ++ path)
  | notFile => some ("Config path is not a file: " ++ path)
  | unreadable error => some ("Cannot read config " ++ path ++ ": " ++ error.message)
  | tooLong => some ("Config " ++ path ++ " exceeds 1MB limit")
  | malformed => some ("Invalid YAML in " ++ path ++ details)
  | notMapping kind => some ("Config must be a YAML mapping, got " ++ kind)
  | invalid _ => some ("Config validation failed for " ++ path ++ details)
  | unanswered _ | notText | scalar _ => none

theorem isSome_message? (path details : String) (fault : LoadFault) :
    (fault.message? path details).isSome = fault.isReported := by
  cases fault <;> rfl

end LoadFault

/-! ### Libraries -/

/-- What loading uses of libraries. -/
structure ConfigLibraries where
  /-- The value that a YAML text holds. -/
  parse : List Char → Except Yaml.ValueFault Datum
  /-- The settings that a record holds, checked against what is declared for them. -/
  validate : List (Datum × Datum) → Except (List SettingError) Config

/-! ### Loading -/

/-- The word for the kind of a value in a message. -/
def Datum.kindName : Datum → String
  | .null => "NoneType"
  | .bool _ => "bool"
  | .int _ => "int"
  | .float _ => "float"
  | .text _ => "str"
  | .bytes _ => "bytes"
  | .date => "date"
  | .dateTime => "datetime"
  | .list _ => "list"
  | .pair .. => "tuple"
  | .set _ => "set"
  | .record _ => "dict"

namespace Config

/-- The text of the file at a path, if it is not too long. -/
def text (files : FileAccess) (path : String) : Except LoadFault (List Char) :=
  match files.exists? path with
  | .error error => .error (.unanswered error)
  | .ok false => .error .missing
  | .ok true =>
    match files.isFile path with
    | .error error => .error (.unanswered error)
    | .ok false => .error .notFile
    | .ok true =>
      match files.readUpTo (maxConfigLength + 1) path with
      | .error (.refused error) => .error (.unreadable error)
      | .error .notText => .error .notText
      | .ok text => if maxConfigLength < text.length then .error .tooLong else .ok text

/-- The settings that the root of a data file holds; nothing is set by an empty file. -/
def ofDatum (libraries : ConfigLibraries) : Datum → Except LoadFault Config
  | .null => .ok {}
  | .record entries => (libraries.validate entries).mapError .invalid
  | root => .error (.notMapping root.kindName)

/-- The settings that a YAML text holds. -/
def ofText (libraries : ConfigLibraries) (text : List Char) : Except LoadFault Config :=
  match libraries.parse text with
  | .ok root => ofDatum libraries root
  | .error .malformed => .error .malformed
  | .error fault => .error (.scalar fault)

/-- The settings in the file at a path. -/
def load (files : FileAccess) (libraries : ConfigLibraries) (path : String) :
    Except LoadFault Config :=
  match text files path with
  | .ok text => ofText libraries text
  | .error fault => .error fault

end Config

end Vicinity
