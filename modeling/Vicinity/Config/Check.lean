import Vicinity.Config
import Vicinity.Config.Datum
import Vicinity.Config.Fault
import Vicinity.Text.Decimal

/-!
# Settings from data

Reading settings from a record. Numbers may be written as texts and whole floating-point numbers,
switches as numbers and as words like `yes` and `off`; keys that are not known are passed over. Every
setting that is wrong is reported with its place, in the order in which the settings are declared.
-/

namespace Vicinity

/-- A value, or everything that is wrong. -/
abbrev Checked (α : Type) := Except (List SettingError) α

namespace Checked

/-- One fault, at the value itself. -/
def fail {α : Type} (fault : SettingFault) : Checked α := .error [⟨[], fault⟩]

/-- The same result with what is wrong placed one step deeper. -/
def below {α : Type} (step : DatumStep) : Checked α → Checked α
  | .ok a => .ok a
  | .error errors => .error (errors.map fun e => { e with place := step :: e.place })

/-- A function's value at an argument; what is wrong with either is kept. -/
def apply {α β : Type} (f : Checked (α → β)) (a : Checked α) : Checked β :=
  match f, a with
  | .ok f, .ok a => .ok (f a)
  | .ok _, .error e => .error e
  | .error e, .ok _ => .error e
  | .error e, .error e' => .error (e ++ e')

/-- All values of a list; what is wrong with any is kept. -/
def all {α : Type} : List (Checked α) → Checked (List α)
  | [] => .ok []
  | a :: more => apply (match a with
      | .ok a => .ok (a :: ·)
      | .error e => .error e) (all more)

end Checked

namespace Datum

/-- The text without a point that only zeros follow, and without these. -/
def dropZeroFraction (s : List Char) : List Char :=
  match s.dropWhile (· != '.') with
  | _ :: fraction => if fraction.all (· == '0') then s.takeWhile (· != '.') else s
  | [] => s

/-- A blank that may stand around a number. -/
def isNumberBlank (c : Char) : Bool := Text.isBlank c && !(0x1c ≤ c.toNat && c.toNat ≤ 0x1f)

/-- The whole number that a text writes. -/
def textToInt (s : String) : Checked Int :=
  if s.utf8ByteSize > 4300 then .fail .intParsingSize
  else
    let s := dropZeroFraction (Text.trimEndWhile isNumberBlank (s.toList.dropWhile isNumberBlank))
    match Text.signedValue? s with
    | some n => .ok n
    | none => .fail .intParsing

/-- The largest and the smallest whole number that a floating-point number may stand for. -/
def fitsWord (n : Int) : Bool := -(1 <<< 63 : Nat) ≤ n && n ≤ (1 <<< 63 : Nat)

/-- The whole number that a value stands for. -/
def toInt : Datum → Checked Int
  | int n => .ok n
  | bool b => .ok (if b then 1 else 0)
  | text s => textToInt s
  | bytes b => match String.fromUTF8? b with
    | some s => textToInt s
    | none => .fail .intParsing
  | float x => match WholePart.ofFloat x with
    | .whole n => if fitsWord n then .ok n else .fail .intParsingSize
    | .fractional => .fail .intFromFloat
    | .notFinite => .fail .finiteNumber
  | _ => .fail .intType

/-- Words for a switch that is off. -/
def offWords : List String := ["0", "f", "n", "no", "off", "false"]

/-- Words for a switch that is on. -/
def onWords : List String := ["1", "t", "y", "yes", "on", "true"]

/-- The switch that a word stands for, in which case does not matter. -/
def textToBool (s : String) : Checked Bool :=
  let s := s.map Char.toLower
  if offWords.contains s then .ok false
  else if onWords.contains s then .ok true
  else .fail .boolParsing

/-- The switch that a number stands for. -/
def intToBool (n : Int) : Checked Bool :=
  if n = 0 then .ok false else if n = 1 then .ok true else .fail .boolParsing

/-- The switch that a value stands for. -/
def toBool : Datum → Checked Bool
  | bool b => .ok b
  | text s => textToBool s
  | bytes b => match String.fromUTF8? b with
    | some s => textToBool s
    | none => .fail .boolParsing
  | int n => if fitsWord n then intToBool n else .fail .boolType
  | float x => match WholePart.ofFloat x with
    | .whole n => if fitsWord n then intToBool n else .fail .boolType
    | _ => .fail .boolType
  | _ => .fail .boolType

/-- The text that a value is. -/
def toText : Datum → Checked String
  | text s => .ok s
  | bytes b => match String.fromUTF8? b with
    | some s => .ok s
    | none => .fail .stringUnicode
  | _ => .fail .stringType

/-- The texts that a list holds. -/
def toTexts : Datum → Checked (List String)
  | list items | set items => .all (items.zipIdx.map fun (item, i) => item.toText.below (.index i))
  | _ => .fail .listType

end Datum

/-- A whole number within bounds. -/
def boundedInt (bounds : Bounds) (d : Datum) : Checked Int :=
  match d.toInt with
  | .error e => .error e
  | .ok n =>
    if bounds.most < n then .fail .lessThanEqual
    else if n < bounds.least then .fail .greaterThanEqual
    else .ok n

/-- A setting of a record under a key, or what holds if it is not there. -/
def setting {α : Type} (entries : List (Datum × Datum)) (key : String) (default : α)
    (read : Datum → Checked α) : Checked α :=
  match Datum.field? entries key with
  | none => .ok default
  | some d => (read d).below (.key key)

/-- Settings that are a record of their own. -/
def nested {α : Type} (read : List (Datum × Datum) → Checked α) : Datum → Checked α
  | .record entries => read entries
  | _ => .fail .modelType

/-- The settings of the file tree that a record holds. -/
def TreeConfig.ofRecord (entries : List (Datum × Datum)) : Checked TreeConfig :=
  let d : TreeConfig := {}
  Checked.apply (Checked.apply (.ok TreeConfig.mk)
    (setting entries "limit" d.limit (boundedInt TreeConfig.limitBounds)))
    (setting entries "exclude" d.exclude Datum.toTexts)

/-- The settings of the layout that a record holds. -/
def LayoutConfig.ofRecord (entries : List (Datum × Datum)) : Checked LayoutConfig :=
  let d : LayoutConfig := {}
  let read {β : Type} (f : Checked (Bool → β)) (key : String) (default : Bool) :=
    Checked.apply f (setting entries key default Datum.toBool)
  read (read (read (read (read (read (read (read (.ok LayoutConfig.mk)
    "environment" d.environment)
    "runtime_version" d.runtimeVersion)
    "focused_lines" d.focusedLines)
    "packages" d.packages)
    "file_tree" d.fileTree)
    "function_definition" d.functionDefinition)
    "type_definitions" d.typeDefinitions)
    "referenced_functions" d.referencedFunctions

/-- The settings that a record holds. -/
def Config.ofRecord (entries : List (Datum × Datum)) : Checked Config :=
  let d : Config := {}
  let read {α β : Type} (f : Checked (α → β)) (key : String) (default : α)
      (by_ : Datum → Checked α) := Checked.apply f (setting entries key default by_)
  read (read (read (read (read (read (read (read (.ok Config.mk)
    "depth" d.depth (boundedInt depthBounds))
    "include_comments" d.includeComments Datum.toBool)
    "ignore_type_paths" d.ignoreTypePaths Datum.toTexts)
    "referenced_functions" d.referencedFunctions Datum.toBool)
    "include_references" d.includeReferences Datum.toBool)
    "focus_radius" d.focusRadius (boundedInt focusRadiusBounds))
    "file_tree" d.fileTree (nested TreeConfig.ofRecord))
    "output" d.layout (nested LayoutConfig.ofRecord)

end Vicinity
