import Vicinity.Path

/-!
# Languages

The programming languages that are told apart, by file extension and by identifier, and how their
declarations are delimited: by indentation or by braces.
-/

namespace Vicinity

/-- A known language. -/
inductive Language where
  | python | javascript | javascriptReact | typescript | typescriptReact
  | go | c | cpp | java | csharp | rust
  deriving DecidableEq, Repr

/-- How a language delimits its declarations. -/
inductive LanguageFamily where
  | brace
  | indentation
  deriving DecidableEq, Repr

namespace Language

/-- Every language. -/
def all : List Language :=
  [.python, .javascript, .javascriptReact, .typescript, .typescriptReact,
    .go, .c, .cpp, .java, .csharp, .rust]

/-- The identifier that editors use for a language. -/
def id : Language → String
  | .python => "python"
  | .javascript => "javascript"
  | .javascriptReact => "javascriptreact"
  | .typescript => "typescript"
  | .typescriptReact => "typescriptreact"
  | .go => "go"
  | .c => "c"
  | .cpp => "cpp"
  | .java => "java"
  | .csharp => "csharp"
  | .rust => "rust"

/-- The language with an identifier. -/
def ofId? (s : String) : Option Language := all.find? (·.id == s)

/-- The file extensions of a language, with their dot and in lower case. -/
def extensions : Language → List String
  | .python => [".py", ".pyw", ".pyi"]
  | .javascript => [".js", ".mjs", ".cjs"]
  | .javascriptReact => [".jsx"]
  | .typescript => [".ts"]
  | .typescriptReact => [".tsx"]
  | .go => [".go"]
  | .c => [".c", ".h"]
  | .cpp => [".cc", ".cpp", ".cxx", ".hpp"]
  | .java => [".java"]
  | .csharp => [".cs"]
  | .rust => [".rs"]

/-- The language of a file by its extension, in which case does not matter and for which a backslash
is a slash. All extensions are ASCII, and no other letter has one of theirs as its lower case. -/
def ofPath? (path : String) : Option Language :=
  let path := String.ofList (path.toList.map fun c => if c = '\\' then '/' else c.toLower)
  let extension := (Path.parse path).extension
  all.find? (·.extensions.contains extension)

/-- The family of a language. -/
def family : Language → LanguageFamily
  | .python => .indentation
  | _ => .brace

theorem ofId?_id (l : Language) : ofId? l.id = some l := by
  cases l <;> decide

end Language

/-- What stands for the language of a file that has none of the known extensions. -/
def unknownLanguageId : String := "unknown"

/-- The identifier of a file's language. -/
def languageIdOfPath (path : String) : String :=
  match Language.ofPath? path with
  | some language => language.id
  | none => unknownLanguageId

/-- The family of the language with an identifier; an unknown one delimits by braces. -/
def languageFamily (languageId : String) : LanguageFamily :=
  match Language.ofId? languageId with
  | some language => language.family
  | none => .brace

end Vicinity
