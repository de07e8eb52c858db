import Vicinity.Identifier
import Vicinity.Provider

/-!
# A provider with prepared answers

A provider that answers from tables: texts and symbols by path, and locations by the word at a
position. Questions can be made to fail by name, or by name and path.
-/

namespace Vicinity

/-- The name of a question. -/
def Lookup.name : Lookup → String
  | .definitions => "definitions_at"
  | .typeDefinitions => "type_definitions_at"
  | .declarations => "declarations_at"
  | .references => "references_at"

/-- Prepared answers. An answer of `none` says that there is no answer, as against an empty one. -/
structure AnswerTables where
  files : List (String × String) := []
  symbols : List (String × Option (List Symbol)) := []
  definitions : List (String × Option (List (Option RawLocation))) := []
  typeDefinitions : List (String × Option (List (Option RawLocation))) := []
  declarations : List (String × Option (List (Option RawLocation))) := []
  references : List (String × Option (List (Option RawLocation))) := []
  /-- What fails: the names of questions, alone or with a path. -/
  failing : List String := []
  /-- The disk beside the tables. -/
  disk : Disk := {}

namespace AnswerTables

/-- The table for a kind of question. -/
def table (t : AnswerTables) : Lookup → List (String × Option (List (Option RawLocation)))
  | .definitions => t.definitions
  | .typeDefinitions => t.typeDefinitions
  | .declarations => t.declarations
  | .references => t.references

/-- Whether a question about a path fails. -/
def fails (t : AnswerTables) (name path : String) : Bool :=
  t.failing.contains name || t.failing.contains (name ++ " " ++ path)

/-- The identifier at a position of a file; none outside of the file. -/
def identifierAt (t : AnswerTables) (path : String) (position : Position) : Option String :=
  let lines := Text.lines ((t.files.lookup path).getD "").toList
  if position.line < 0 then none
  else match lines[position.line.toNat]? with
    | some line => (Vicinity.identifierAt line position.column).map String.ofList
    | none => none

/-- The answer to a question about a position. -/
def locations (t : AnswerTables) (what : Lookup) (path : String) (position : Position) :
    Except ProviderFailure (Option (List (Option RawLocation))) :=
  if t.fails what.name path then .error .refused
  else match t.identifierAt path position with
    | some word => .ok (((t.table what).lookup word).getD (some []))
    | none => .ok (some [])

/-- The provider that answers from the tables in its state. -/
def provider : Provider AnswerTables where
  askSymbols path := do
    let t ← get
    if t.fails "symbols_of" path then return .error .refused
    else return .ok ((t.symbols.lookup path).getD (some []))
  askLocations what path position := do
    return (← get).locations what path position
  askText path := do
    let t ← get
    if t.fails "read_text" path then return .error .refused
    else match t.files.lookup path with
      | some text => return .ok text
      | none => return .error .refused

end AnswerTables

end Vicinity
