import Vicinity.Source.Indented.Rule
import Vicinity.Symbol.Nesting

/-!
# Statements

The statements of a source as a tree: definitions with what they hold, assignments to names, and other
statements with the blocks that they hold. `Statement.symbols` finds the symbols: definitions that
stand directly in the source or in the body of another definition, and the members of enumerations.
-/

namespace Vicinity.Indented

/-- What a class is derived from. -/
inductive Base where
  /-- The class with a name. -/
  | name (name : String)
  /-- An attribute of something. -/
  | member (name : String)
  /-- What another expression gives. -/
  | other
  deriving DecidableEq, Repr

/-- A statement. -/
inductive Statement where
  /-- The definition of a function. -/
  | function (name : String) (span : Span) (body : List Statement)
  /-- The definition of a class. -/
  | class (name : String) (span : Span) (bases : List Base) (body : List Statement)
  /-- An assignment to targets, those that are names with their names. -/
  | assignment (span : Span) (targets : List (Option String))
  /-- The type of a target, with its name if it is one. -/
  | typing (span : Span) (target : Option String)
  /-- A statement with blocks of statements: a choice, a loop, a context, or a handler. -/
  | compound (blocks : List (List Statement))
  /-- Any other statement. -/
  | simple

/-! ### From phrases -/

/-- The name that is all of a target, perhaps in parentheses. -/
def soleName? : Phrase Rule → Option String
  | .node _ [.token opening, inner, .token _] =>
    if opening.isWord "(" then soleName? inner else none
  | phrase => phrase.name?

/-- The base that an argument of a class gives. -/
def Base.ofPhrase : Phrase Rule → Base
  | .node .group [_, inner, _] => ofPhrase inner
  | .node .primary parts =>
    match parts.reverse with
    | last :: dot :: _ => match last.name? with
      | some text => if dot.isWord "." then .member text else .other
      | none => .other
    | _ => .other
  | phrase => match phrase.name? with
    | some text => .name text
    | none => .other

mutual

/-- The bases that the arguments of a class give. -/
def basesOf : Phrase Rule → List Base
  | .node .arguments parts => basesOfList parts
  | .node .argumentList parts => basesOfList parts
  | .node .keywordArguments _ => []
  | .node .keywordArgument _ => []
  | .node .unpackedKeywords _ => []
  | phrase => if phrase.isWord "," then [] else [Base.ofPhrase phrase]

/-- The bases that several phrases give. -/
def basesOfList : List (Phrase Rule) → List Base
  | [] => []
  | phrase :: phrases => basesOf phrase ++ basesOfList phrases

end

/-- The name that follows the reserved word of a definition. -/
def definedName : List (Phrase Rule) → String
  | keyword :: part :: parts =>
    if keyword.isWord "def" || keyword.isWord "class" then part.name?.getD ""
    else definedName (part :: parts)
  | _ => ""

/-- The bases of a class, between the parentheses after its name. -/
def classBases (parts : List (Phrase Rule)) : List Base :=
  match parts.dropWhile (!·.isWord "(") with
  | _ :: part :: _ => if part.isWord ")" then [] else basesOf part
  | _ => []

/-- The targets of an assignment, each before an equals sign. -/
def assignedTargets : List (Phrase Rule) → List (Option String)
  | target :: sign :: rest =>
    if sign.isWord "=" then soleName? target :: assignedTargets rest else []
  | _ => []

/-- The target that is given a type: the first part, or the one after a parenthesis. -/
def typedTargetName : List (Phrase Rule) → Option String
  | first :: second :: _ => if first.isWord "(" then soleName? second else soleName? first
  | _ => none

mutual

/-- The statements that a phrase stands for: a statement, or a row of them. -/
def statements : Phrase Rule → List Statement
  | .node rule parts =>
    match rule with
    | .file | .statements | .simpleStatements | .block => statementsOf parts
    | .function | .decoratedClass => statementsOf parts
    | .decorators => []
    | .functionDefinition =>
      [.function (definedName parts) (Phrase.node rule parts).span (bodyOf parts)]
    | .classDefinition =>
      [.class (definedName parts) (Phrase.node rule parts).span (classBases parts) (bodyOf parts)]
    | .assignment => [.assignment (Phrase.node rule parts).span (assignedTargets parts)]
    | .typedTarget => [.typing (Phrase.node rule parts).span (typedTargetName parts)]
    | .ifStatement | .whileStatement | .forStatement | .withStatement | .tryStatement
    | .matchStatement => [.compound (blocksOf parts)]
    | _ => [.simple]
  | .token t => if t.kind.isLayout || t.isWord ";" then [] else [.simple]

/-- The statements that phrases stand for. -/
def statementsOf : List (Phrase Rule) → List Statement
  | [] => []
  | phrase :: phrases => statements phrase ++ statementsOf phrases

/-- The statements of the last of the parts of a definition. -/
def bodyOf : List (Phrase Rule) → List Statement
  | [] => []
  | [body] => statements body
  | _ :: parts => bodyOf parts

/-- The blocks in a phrase, those inside of other blocks apart. -/
def blocks : Phrase Rule → List (List Statement)
  | .token _ => []
  | .node rule parts =>
    match rule with
    | .block | .simpleStatements => [statementsOf parts]
    | _ => blocksOf parts

/-- The blocks in phrases. -/
def blocksOf : List (Phrase Rule) → List (List Statement)
  | [] => []
  | phrase :: phrases => blocks phrase ++ blocksOf phrases

end

/-! ### Symbols -/

/-- The names of the classes that enumerations are derived from. -/
def enumerationBases : List String := ["Enum", "IntEnum", "StrEnum", "Flag", "IntFlag"]

/-- Whether a base makes a class an enumeration. -/
def Base.isEnumeration : Base → Bool
  | .name text => enumerationBases.contains text
  | .member text => enumerationBases.contains text
  | .other => false

/-- The name of the methods that construct. -/
def constructorName : String := "__init__"

/-- The members that a statement in the body of an enumeration gives. -/
def Statement.members : Statement → List FlatSymbol
  | .assignment span targets => (targets.filterMap id).map fun name => ⟨name, .enumMember, span⟩
  | .typing span target => target.toList.map fun name => ⟨name, .enumMember, span⟩
  | _ => []

mutual

/-- The symbols that a statement gives; `inClass` says whether it is in the body of a class. -/
def Statement.symbols (inClass : Bool) : Statement → List FlatSymbol
  | .function name span body =>
    let kind : SymbolKind :=
      if inClass then if name = constructorName then .constructor else .method else .function
    ⟨name, kind, span⟩ :: symbolsOf false body
  | .class name span bases body =>
    if bases.any Base.isEnumeration then ⟨name, .enum, span⟩ :: body.flatMap Statement.members
    else ⟨name, .class, span⟩ :: symbolsOf true body
  | _ => []

/-- The symbols that statements give. -/
def symbolsOf (inClass : Bool) : List Statement → List FlatSymbol
  | [] => []
  | statement :: statements => statement.symbols inClass ++ symbolsOf inClass statements

end

end Vicinity.Indented
