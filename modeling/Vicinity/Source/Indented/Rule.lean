import Vicinity.Source.Indented.Phrase

/-!
# The grammar

The rules of sources whose blocks are delimited by indentation, and the form of each. The order of
alternatives matters throughout; rules that nest to the left are repetitions.
-/

namespace Vicinity.Indented

/-- The rules of the grammar. -/
inductive Rule where
  /-- A whole source. -/
  | file
  /-- Statements one after the other. -/
  | statements
  /-- A statement, or several simple ones on one line. -/
  | statement
  /-- Simple statements on one line, with semicolons between them. -/
  | simpleStatements
  /-- A statement that holds no other. -/
  | simpleStatement
  /-- A statement that holds others. -/
  | compound
  /-- A target with its type, and perhaps a value. -/
  | typedTarget
  /-- A type, and perhaps a value. -/
  | typeOf
  /-- Targets and the value that they get. -/
  | assignment
  /-- A value to be assigned. -/
  | assignedValue
  /-- A target changed by an operator. -/
  | augmentation
  /-- The end of a call. -/
  | returnStatement
  /-- An exception is raised. -/
  | raiseStatement
  /-- Names of the source. -/
  | globalStatement
  /-- Names of an outer function. -/
  | nonlocalStatement
  /-- Targets are removed. -/
  | deleteStatement
  /-- A condition is checked. -/
  | assertStatement
  /-- Modules are imported. -/
  | importStatement
  /-- Names of a module are imported. -/
  | importFrom
  /-- The dots of a relative module. -/
  | dots
  /-- What is imported from a module. -/
  | importedNames
  /-- A name, or another one for it. -/
  | importedName
  /-- Names with dots between them. -/
  | dottedName
  /-- The statements that a compound statement holds. -/
  | block
  /-- What is applied to a definition. -/
  | decorators
  /-- A class, perhaps decorated. -/
  | decoratedClass
  /-- A class. -/
  | classDefinition
  /-- A function, perhaps decorated. -/
  | function
  /-- A function. -/
  | functionDefinition
  /-- A choice by conditions. -/
  | ifStatement
  /-- A further condition of a choice. -/
  | elseIf
  /-- What is done otherwise. -/
  | elseBlock
  /-- A loop with a condition. -/
  | whileStatement
  /-- A loop over items. -/
  | forStatement
  /-- Statements in contexts. -/
  | withStatement
  /-- A context, and perhaps a target for it. -/
  | withItem
  /-- Statements whose exceptions are handled. -/
  | tryStatement
  /-- What is done about exceptions. -/
  | exceptBlock
  /-- What is done about grouped exceptions. -/
  | exceptGroup
  /-- What is done in the end. -/
  | finallyBlock
  /-- The parameters of a function. -/
  | parameters
  /-- A parameter without a default. -/
  | plainParameter
  /-- A parameter with a default. -/
  | defaultParameter
  /-- A parameter that may have a default. -/
  | optionalParameter
  /-- A name that may have a type. -/
  | parameter
  /-- The parameters from a star on. -/
  | starParameters
  /-- The parameter for all other keywords. -/
  | keywordParameters
  /-- The parameters of an anonymous function. -/
  | lambdaParameters
  /-- A parameter of it without a default. -/
  | plainLambdaParameter
  /-- A parameter of it with a default. -/
  | defaultLambdaParameter
  /-- A parameter of it that may have a default. -/
  | optionalLambdaParameter
  /-- The parameters of it from a star on. -/
  | lambdaStarParameters
  /-- The parameter of it for all other keywords. -/
  | lambdaKeywordParameters
  /-- A choice by patterns. -/
  | matchStatement
  /-- What is matched. -/
  | subject
  /-- A pattern and what is done where it matches. -/
  | caseBlock
  /-- A pattern. -/
  | pattern
  /-- Patterns one of which has to match. -/
  | orPattern
  /-- A pattern that needs no brackets. -/
  | closedPattern
  /-- A literal as a pattern. -/
  | literalPattern
  /-- A number with or without a minus. -/
  | signedNumber
  /-- A real and an imaginary number. -/
  | complexNumber
  /-- A name that a pattern binds. -/
  | captureTarget
  /-- A dotted name as a pattern. -/
  | valuePattern
  /-- Two or more names with dots between them. -/
  | dottedAttribute
  /-- A pattern in parentheses. -/
  | groupPattern
  /-- A pattern for sequences in brackets. -/
  | sequencePattern
  /-- A pattern for sequences without brackets. -/
  | openSequence
  /-- The patterns of items. -/
  | sequenceItems
  /-- The pattern of an item, or of all that are left. -/
  | sequenceItem
  /-- A pattern for mappings. -/
  | mappingPattern
  /-- A key and the pattern of its value. -/
  | keyPattern
  /-- The name for the keys that are left. -/
  | restPattern
  /-- A pattern for the objects of a class. -/
  | classPattern
  /-- The patterns in a class pattern. -/
  | classArguments
  /-- The pattern of an attribute. -/
  | keywordPattern
  /-- An expression. -/
  | expression
  /-- A value is yielded. -/
  | yieldExpression
  /-- Expressions with commas between them. -/
  | starExpressions
  /-- An expression, or one unpacked. -/
  | starExpression
  /-- Items with commas between them. -/
  | starNamedExpressions
  /-- An item, or one unpacked. -/
  | starNamedExpression
  /-- An expression whose value gets a name. -/
  | binding
  /-- An expression whose value may get a name. -/
  | namedExpression
  /-- Conditions one of which has to hold. -/
  | disjunction
  /-- Conditions that all have to hold. -/
  | conjunction
  /-- A condition or its opposite. -/
  | inversion
  /-- A chain of comparisons. -/
  | comparison
  /-- A comparison operator. -/
  | comparator
  /-- Bits of either operand. -/
  | bitOr
  /-- Bits of one operand. -/
  | bitXor
  /-- Bits of both operands. -/
  | bitAnd
  /-- Shifted bits. -/
  | shift
  /-- A sum or a difference. -/
  | sum
  /-- A product or a quotient. -/
  | term
  /-- A power with signs. -/
  | factor
  /-- A power. -/
  | power
  /-- An expression that may be awaited. -/
  | awaited
  /-- An atom with its attributes, calls and items. -/
  | primary
  /-- What selects items. -/
  | slices
  /-- What selects an item or a range. -/
  | slice
  /-- An expression that nothing has to be put around. -/
  | atom
  /-- A name. -/
  | name
  /-- A number. -/
  | number
  /-- String literals one after the other. -/
  | strings
  /-- An expression in parentheses. -/
  | group
  /-- An anonymous function. -/
  | lambda
  /-- A tuple in parentheses. -/
  | tuple
  /-- A list. -/
  | list
  /-- A set. -/
  | set
  /-- A dictionary. -/
  | dictionary
  /-- An entry, or a dictionary unpacked. -/
  | dictionaryItem
  /-- A key and its value. -/
  | entry
  /-- Where the items of a comprehension come from. -/
  | comprehension
  /-- A list from other items. -/
  | listComprehension
  /-- A set from other items. -/
  | setComprehension
  /-- A dictionary from other items. -/
  | dictionaryComprehension
  /-- Items from other items, one at a time. -/
  | generator
  /-- The arguments of a call or of a class. -/
  | arguments
  /-- Arguments with commas between them, those with keywords last. -/
  | argumentList
  /-- An argument without a keyword. -/
  | positional
  /-- Arguments from a sequence. -/
  | unpacked
  /-- The arguments from the first with a keyword on. -/
  | keywordArguments
  /-- An argument with a keyword. -/
  | keywordArgument
  /-- Arguments from a dictionary. -/
  | unpackedKeywords
  /-- Targets with commas between them. -/
  | starTargets
  /-- A target, or one that takes all items that are left. -/
  | starTarget
  /-- A target. -/
  | itemTarget
  /-- A name, or targets in brackets. -/
  | starAtom
  /-- The targets of a tuple. -/
  | tupleTargets
  /-- A single target. -/
  | singleTarget
  /-- An attribute or an item as a target. -/
  | memberTarget
  /-- What an attribute or an item belongs to. -/
  | targetPrimary
  /-- The beginning of an attribute, a call or an item. -/
  | memberAhead
  /-- Targets to be removed. -/
  | deleteTargets
  /-- A target to be removed. -/
  | deleteTarget
  deriving DecidableEq, Repr

/-- A text stands for the reserved word or the operator. -/
instance {ρ : Type} : Coe String (Form ρ) := ⟨.word⟩

/-- A rule stands for its phrases. -/
instance : Coe Rule (Form Rule) := ⟨.rule⟩

section

open Form Rule

/-- The end of a parameter before another one or before the text that closes the list. -/
def parameterEnd (close : String) : Form Rule := .choice [",", .ahead close]

/-- A list of parameters: those without a default come first, and a slash may end those that have no
keyword. -/
def parametersOf (plain default star : Rule) (close : String) : Form Rule :=
  .choice [
    .row [repeated plain, "/", parameterEnd close, .many plain, .many default, opt star],
    .row [.many plain, repeated default, "/", parameterEnd close, .many default, opt star],
    .row [repeated plain, .many default, opt star],
    .row [repeated default, opt star],
    star]

/-- The form of a rule. -/
def Rule.form : Rule → Form Rule
  | .file =>
    row [opt statements, kind .ending]
  | .statements =>
    repeated statement
  | .statement =>
    choice [compound, simpleStatements]
  | .simpleStatements =>
    row [simpleStatement, many (row [";", simpleStatement]), opt ";", kind .newline]
  | .simpleStatement =>
    choice [typedTarget, assignment, augmentation, starExpressions, returnStatement, importStatement,
      importFrom, raiseStatement, "pass", deleteStatement, yieldExpression, assertStatement, "break",
      "continue", globalStatement, nonlocalStatement]
  | .compound =>
    choice [function, ifStatement, decoratedClass, withStatement, forStatement, tryStatement,
      whileStatement, matchStatement]
  | .typedTarget =>
    choice [row [name, typeOf],
      row [choice [row ["(", singleTarget, ")"], memberTarget], typeOf]]
  | .typeOf =>
    row [":", expression, opt (row ["=", assignedValue])]
  | .assignment =>
    row [repeated (row [starTargets, "="]), assignedValue, absent "="]
  | .assignedValue =>
    choice [yieldExpression, starExpressions]
  | .augmentation =>
    row [singleTarget, choice ["+=", "-=", "*=", "@=", "/=", "%=", "&=", "|=", "^=", "<<=", ">>=",
      "**=", "//="], assignedValue]
  | .returnStatement =>
    row ["return", opt starExpressions]
  | .raiseStatement =>
    row ["raise", opt (row [expression, opt (row ["from", expression])])]
  | .globalStatement =>
    row ["global", separated "," name]
  | .nonlocalStatement =>
    row ["nonlocal", separated "," name]
  | .deleteStatement =>
    row ["del", deleteTargets, ahead (choice [";", kind .newline])]
  | .assertStatement =>
    row ["assert", expression, opt (row [",", expression])]
  | .importStatement =>
    row ["import", separated "," (row [dottedName, opt (row ["as", name])])]
  | .importFrom =>
    row ["from", choice [row [many dots, dottedName], repeated dots], "import", importedNames]
  | .dots =>
    choice [".", "..."]
  | .importedNames =>
    choice [row ["(", separated "," importedName, opt ",", ")"],
      row [separated "," importedName, absent ","], "*"]
  | .importedName =>
    row [name, opt (row ["as", name])]
  | .dottedName =>
    separated "." name
  | .block =>
    choice [row [kind .newline, kind .indent, statements, kind .dedent], simpleStatements]
  | .decorators =>
    repeated (row ["@", namedExpression, kind .newline])
  | .decoratedClass =>
    choice [row [decorators, classDefinition], classDefinition]
  | .classDefinition =>
    row ["class", name, opt (row ["(", opt arguments, ")"]), ":", block]
  | .function =>
    choice [row [decorators, functionDefinition], functionDefinition]
  | .functionDefinition =>
    row [opt "async", "def", name, "(", opt parameters, ")", opt (row ["->", expression]), ":",
      block]
  | .ifStatement =>
    row ["if", namedExpression, ":", block, opt (choice [elseIf, elseBlock])]
  | .elseIf =>
    row ["elif", namedExpression, ":", block, opt (choice [elseIf, elseBlock])]
  | .elseBlock =>
    row ["else", ":", block]
  | .whileStatement =>
    row ["while", namedExpression, ":", block, opt elseBlock]
  | .forStatement =>
    row [opt "async", "for", starTargets, "in", starExpressions, ":", block, opt elseBlock]
  | .withStatement =>
    choice [row [opt "async", "with", "(", separated "," withItem, opt ",", ")", ":", block],
      row [opt "async", "with", separated "," withItem, ":", block]]
  | .withItem =>
    choice [row [expression, "as", starTarget, ahead (choice [",", ")", ":"])], expression]
  | .tryStatement =>
    row ["try", ":", block, choice [finallyBlock,
      row [repeated exceptBlock, opt elseBlock, opt finallyBlock],
      row [repeated exceptGroup, opt elseBlock, opt finallyBlock]]]
  | .exceptBlock =>
    choice [row ["except", expression, opt (row ["as", name]), ":", block],
      row ["except", ":", block]]
  | .exceptGroup =>
    row ["except", "*", expression, opt (row ["as", name]), ":", block]
  | .finallyBlock =>
    row ["finally", ":", block]
  | .parameters =>
    parametersOf plainParameter defaultParameter starParameters ")"
  | .plainParameter =>
    row [parameter, parameterEnd ")"]
  | .defaultParameter =>
    row [parameter, "=", expression, parameterEnd ")"]
  | .optionalParameter =>
    row [parameter, opt (row ["=", expression]), parameterEnd ")"]
  | .parameter =>
    row [name, opt (row [":", expression])]
  | .starParameters =>
    choice [row ["*", plainParameter, many optionalParameter, opt keywordParameters],
      row ["*", name, ":", starExpression, parameterEnd ")", many optionalParameter,
        opt keywordParameters],
      row ["*", ",", repeated optionalParameter, opt keywordParameters], keywordParameters]
  | .keywordParameters =>
    row ["**", plainParameter]
  | .lambdaParameters =>
    parametersOf plainLambdaParameter defaultLambdaParameter lambdaStarParameters ":"
  | .plainLambdaParameter =>
    row [name, parameterEnd ":"]
  | .defaultLambdaParameter =>
    row [name, "=", expression, parameterEnd ":"]
  | .optionalLambdaParameter =>
    row [name, opt (row ["=", expression]), parameterEnd ":"]
  | .lambdaStarParameters =>
    choice [row ["*", plainLambdaParameter, many optionalLambdaParameter, opt lambdaKeywordParameters],
      row ["*", ",", repeated optionalLambdaParameter, opt lambdaKeywordParameters],
      lambdaKeywordParameters]
  | .lambdaKeywordParameters =>
    row ["**", plainLambdaParameter]
  | .matchStatement =>
    row [named "match", subject, ":", kind .newline, kind .indent, repeated caseBlock, kind .dedent]
  | .subject =>
    choice [row [starNamedExpression, ",", opt starNamedExpressions], namedExpression]
  | .caseBlock =>
    row [named "case", choice [openSequence, pattern], opt (row ["if", namedExpression]), ":", block]
  | .pattern =>
    choice [row [orPattern, "as", captureTarget], orPattern]
  | .orPattern =>
    separated "|" closedPattern
  | .closedPattern =>
    choice [literalPattern, captureTarget, named "_", valuePattern, groupPattern, sequencePattern,
      mappingPattern, classPattern]
  | .literalPattern =>
    choice [row [signedNumber, absent (choice ["+", "-"])], complexNumber, strings, "None", "True",
      "False"]
  | .signedNumber =>
    row [opt "-", number]
  | .complexNumber =>
    row [opt "-", kind .number, choice ["+", "-"], kind .imaginary]
  | .captureTarget =>
    row [absent (named "_"), name, absent (choice [".", "(", "="])]
  | .valuePattern =>
    row [dottedAttribute, absent (choice [".", "(", "="])]
  | .dottedAttribute =>
    row [name, repeated (row [".", name])]
  | .groupPattern =>
    row ["(", pattern, ")"]
  | .sequencePattern =>
    choice [row ["[", opt sequenceItems, "]"], row ["(", opt openSequence, ")"]]
  | .openSequence =>
    row [sequenceItem, ",", opt sequenceItems]
  | .sequenceItems =>
    row [separated "," sequenceItem, opt ","]
  | .sequenceItem =>
    choice [row ["*", choice [captureTarget, named "_"]], pattern]
  | .mappingPattern =>
    choice [row ["\x7b", "\x7d"], row ["\x7b", restPattern, opt ",", "\x7d"],
      row ["\x7b", separated "," keyPattern, ",", restPattern, opt ",", "\x7d"],
      row ["\x7b", separated "," keyPattern, opt ",", "\x7d"]]
  | .keyPattern =>
    row [choice [literalPattern, dottedAttribute], ":", pattern]
  | .restPattern =>
    row ["**", captureTarget]
  | .classPattern =>
    row [choice [dottedAttribute, name], "(", choice [")", row [classArguments, opt ",", ")"]]]
  | .classArguments =>
    choice [row [separated "," keywordPattern, ahead (row [opt ",", ")"])],
      row [separated "," pattern, ahead (row [opt ",", ")"])],
      row [separated "," pattern, ",", separated "," keywordPattern]]
  | .keywordPattern =>
    row [name, "=", pattern]
  | .expression =>
    choice [row [disjunction, "if", disjunction, "else", expression], disjunction, lambda]
  | .yieldExpression =>
    choice [row ["yield", "from", expression], row ["yield", opt starExpressions]]
  | .starExpressions =>
    row [starExpression, many (row [",", starExpression]), opt ","]
  | .starExpression =>
    choice [row ["*", bitOr], expression]
  | .starNamedExpressions =>
    row [separated "," starNamedExpression, opt ","]
  | .starNamedExpression =>
    choice [row ["*", bitOr], namedExpression]
  | .binding =>
    row [name, ":=", expression]
  | .namedExpression =>
    choice [binding, row [expression, absent ":="]]
  | .disjunction =>
    separated "or" conjunction
  | .conjunction =>
    separated "and" inversion
  | .inversion =>
    choice [row ["not", inversion], comparison]
  | .comparison =>
    row [bitOr, many (row [comparator, bitOr])]
  | .comparator =>
    choice ["==", "!=", "<=", "<", ">=", ">", row ["not", "in"], "in", row ["is", "not"], "is"]
  | .bitOr =>
    separated "|" bitXor
  | .bitXor =>
    separated "^" bitAnd
  | .bitAnd =>
    separated "&" shift
  | .shift =>
    row [sum, many (row [choice ["<<", ">>"], sum])]
  | .sum =>
    row [term, many (row [choice ["+", "-"], term])]
  | .term =>
    row [factor, many (row [choice ["*", "/", "//", "%", "@"], factor])]
  | .factor =>
    choice [row [choice ["+", "-", "~"], factor], power]
  | .power =>
    row [awaited, opt (row ["**", factor])]
  | .awaited =>
    row [opt "await", primary]
  | .primary =>
    row [atom, many (choice [row [".", name], generator, row ["(", opt arguments, ")"],
      row ["[", slices, "]"]])]
  | .slices =>
    choice [row [slice, absent ","],
      row [separated "," (choice [slice, row ["*", expression]]), opt ","]]
  | .slice =>
    choice [row [opt expression, ":", opt expression, opt (row [":", opt expression])],
      namedExpression]
  | .atom =>
    choice [name, "True", "False", "None", strings, number, tuple, group, generator, list,
      listComprehension, dictionary, set, dictionaryComprehension, setComprehension, "..."]
  | .name =>
    kind .name
  | .number =>
    choice [kind .number, kind .imaginary]
  | .strings =>
    repeated (kind .quoted)
  | .group =>
    row ["(", choice [yieldExpression, namedExpression], ")"]
  | .lambda =>
    row ["lambda", opt lambdaParameters, ":", expression]
  | .tuple =>
    row ["(", opt (row [starNamedExpression, ",", opt starNamedExpressions]), ")"]
  | .list =>
    row ["[", opt starNamedExpressions, "]"]
  | .set =>
    row ["\x7b", starNamedExpressions, "\x7d"]
  | .dictionary =>
    row ["\x7b", opt (row [separated "," dictionaryItem, opt ","]), "\x7d"]
  | .dictionaryItem =>
    choice [row ["**", bitOr], entry]
  | .entry =>
    row [expression, ":", expression]
  | .comprehension =>
    repeated (row [opt "async", "for", starTargets, "in", disjunction,
      many (row ["if", disjunction])])
  | .listComprehension =>
    row ["[", namedExpression, comprehension, "]"]
  | .setComprehension =>
    row ["\x7b", namedExpression, comprehension, "\x7d"]
  | .dictionaryComprehension =>
    row ["\x7b", entry, comprehension, "\x7d"]
  | .generator =>
    row ["(", namedExpression, comprehension, ")"]
  | .arguments =>
    row [argumentList, opt ",", ahead ")"]
  | .argumentList =>
    choice [row [separated "," positional, opt (row [",", keywordArguments])], keywordArguments]
  | .positional =>
    choice [unpacked, row [namedExpression, absent "="]]
  | .unpacked =>
    row ["*", expression]
  | .keywordArguments =>
    choice [row [separated "," (choice [keywordArgument, unpacked]), ",",
        separated "," (choice [keywordArgument, unpackedKeywords])],
      separated "," (choice [keywordArgument, unpacked]),
      separated "," (choice [keywordArgument, unpackedKeywords])]
  | .keywordArgument =>
    row [name, "=", expression]
  | .unpackedKeywords =>
    row ["**", expression]
  | .starTargets =>
    row [starTarget, many (row [",", starTarget]), opt ","]
  | .starTarget =>
    choice [row ["*", absent "*", starTarget], itemTarget]
  | .itemTarget =>
    choice [memberTarget, starAtom]
  | .starAtom =>
    choice [name, row ["(", itemTarget, ")"], row ["(", opt tupleTargets, ")"],
      row ["[", opt (row [separated "," starTarget, opt ","]), "]"]]
  | .tupleTargets =>
    choice [row [starTarget, repeated (row [",", starTarget]), opt ","], row [starTarget, ","]]
  | .singleTarget =>
    choice [memberTarget, name, row ["(", singleTarget, ")"]]
  | .memberTarget =>
    row [targetPrimary, choice [row [".", name], row ["[", slices, "]"]], absent memberAhead]
  | .targetPrimary =>
    row [atom, ahead memberAhead, many (row [choice [row [".", name], row ["[", slices, "]"],
      generator, row ["(", opt arguments, ")"]], ahead memberAhead])]
  | .memberAhead =>
    choice ["(", "[", "."]
  | .deleteTargets =>
    row [separated "," deleteTarget, opt ","]
  | .deleteTarget =>
    choice [memberTarget, name, row ["(", deleteTarget, ")"], row ["(", opt deleteTargets, ")"],
      row ["[", opt deleteTargets, "]"]]

end

/-- The phrase of a rule that a row of tokens begins with. -/
def Rule.phrase? (rule : Rule) (tokens : List Token) : Option (Phrase Rule) :=
  Indented.phrase? Rule.form tokens.toArray rule

end Vicinity.Indented
