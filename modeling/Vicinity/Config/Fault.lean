/-!
# Faults of data

What can be wrong with the YAML that a file of settings holds, and with the settings in it.
-/

namespace Vicinity

/-! ### YAML -/

namespace Yaml

/-- Why the text of a number has no value. -/
inductive NumberFault where
  /-- There is nothing in it. -/
  | empty
  /-- It is no whole number in the base. -/
  | notWhole (text : List Char) (base : Nat)
  /-- It has too many digits. -/
  | tooLong (digits : Nat)
  /-- It is no floating-point number. -/
  | notFloat (text : List Char)
  deriving DecidableEq, Repr

/-- What is wrong with a date or a time. -/
inductive CalendarFault where
  | year | month | day | hour | minute | second | offset
  deriving DecidableEq, Repr

/-- Why a text has no value. -/
inductive ValueFault where
  /-- The text does not follow the format. -/
  | malformed
  /-- A switch is no known word. -/
  | switch (text : List Char)
  /-- A number cannot be read. -/
  | number (fault : NumberFault)
  /-- A time does not have the form of one. -/
  | timeForm
  /-- A date or time is not in the calendar. -/
  | calendar (fault : CalendarFault)
  deriving DecidableEq, Repr

end Yaml

/-! ### Settings -/

/-- A step on the way from a record to a value in it. -/
inductive DatumStep where
  | key (name : String)
  | index (i : Nat)
  deriving DecidableEq, Repr

/-- What is wrong with a setting. -/
inductive SettingFault where
  | intType | intParsing | intParsingSize | intFromFloat | finiteNumber
  | greaterThanEqual | lessThanEqual
  | boolType | boolParsing
  | listType | stringType | stringUnicode | modelType
  deriving DecidableEq, Repr

/-- The word for what is wrong. -/
def SettingFault.name : SettingFault → String
  | .intType => "int_type"
  | .intParsing => "int_parsing"
  | .intParsingSize => "int_parsing_size"
  | .intFromFloat => "int_from_float"
  | .finiteNumber => "finite_number"
  | .greaterThanEqual => "greater_than_equal"
  | .lessThanEqual => "less_than_equal"
  | .boolType => "bool_type"
  | .boolParsing => "bool_parsing"
  | .listType => "list_type"
  | .stringType => "string_type"
  | .stringUnicode => "string_unicode"
  | .modelType => "model_type"

/-- A wrong setting: where it stands and what is wrong. -/
structure SettingError where
  place : List DatumStep
  fault : SettingFault
  deriving DecidableEq, Repr

end Vicinity
