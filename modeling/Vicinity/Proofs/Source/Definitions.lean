import Mathlib.Data.List.Basic
import Vicinity.Source.Indented

/-!
# The definitions of an indented source

A definition of a function or of a class stands in the source itself, in the body of another definition, or
in a block of a statement such as a choice or a loop, and these may be nested in any way. `definitionsOf`
lists all definitions of a source with what each stands in. The symbols are found by going from a definition
to those that stand directly in its body. So blocks are not entered, and neither is the body of an
enumeration, of which only the members are taken.

A definition is open if it stands in the bodies of functions and of other classes only. Exactly the open
definitions are reported, each once: with its name and its range, and as a method or a constructor if the
definition that it stands in is a class.

## What is proved

* `definitionsOf_within`: what definitions are found in is part of what they stand in.
* `symbolsOf_eq_open`: the symbols apart from the members of enumerations are the open definitions.
* `definitions_reported_iff`: all definitions are reported just when all are open.
* `symbols_definitions`: the same for a source that is read.
-/

namespace Vicinity.Indented

/-- What a definition defines. -/
inductive Defined where
  | function
  | plainClass
  | enumeration
  deriving DecidableEq, Repr

/-- What statements stand in. -/
inductive Place where
  /-- The body of a definition. -/
  | body (defined : Defined)
  /-- A block of a statement that is not a definition. -/
  | block
  deriving DecidableEq, Repr

/-- A definition with the places it stands in, the innermost first. -/
structure Definition where
  name : String
  span : Span
  defined : Defined
  within : List Place
  deriving DecidableEq, Repr

/-- What a class with the bases defines. -/
def Defined.ofBases (bases : List Base) : Defined :=
  if bases.any Base.isEnumeration then .enumeration else .plainClass

mutual

/-- The definitions in a statement that stands in places. -/
def Statement.definitions (within : List Place) : Statement → List Definition
  | .function name span body =>
    ⟨name, span, .function, within⟩ :: definitionsOf (.body .function :: within) body
  | .class name span bases body =>
    ⟨name, span, .ofBases bases, within⟩ :: definitionsOf (.body (.ofBases bases) :: within) body
  | .compound blocks => definitionsOfBlocks (.block :: within) blocks
  | _ => []

/-- The definitions in statements that stand in places. -/
def definitionsOf (within : List Place) : List Statement → List Definition
  | [] => []
  | statement :: statements => statement.definitions within ++ definitionsOf within statements

/-- The definitions in the statements of blocks. -/
def definitionsOfBlocks (within : List Place) : List (List Statement) → List Definition
  | [] => []
  | block :: blocks => definitionsOf within block ++ definitionsOfBlocks within blocks

end

/-- The definition whose body is a place. -/
def Place.defined? : Place → Option Defined
  | .body defined => some defined
  | .block => none

/-- Whether the innermost definition among the places is one of a class. -/
def inClass (within : List Place) : Bool :=
  match within.findSome? Place.defined? with
  | some .plainClass | some .enumeration => true
  | some .function | none => false

/-- Whether the statements in a place are searched for definitions. -/
def Place.isOpen : Place → Bool
  | .body .function | .body .plainClass => true
  | .body .enumeration | .block => false

namespace Definition

/-- Whether a definition stands in the bodies of functions and of classes that are not enumerations. -/
def isOpen (definition : Definition) : Bool := definition.within.all Place.isOpen

/-- The kind of symbol that a definition is. -/
def kind (definition : Definition) : SymbolKind :=
  match definition.defined with
  | .function =>
    if inClass definition.within then
      if definition.name = constructorName then .constructor else .method
    else .function
  | .plainClass => .class
  | .enumeration => .enum

/-- The symbol that a definition is. -/
def symbol (definition : Definition) : FlatSymbol :=
  ⟨definition.name, definition.kind, definition.span⟩

end Definition

/-- The symbols of definitions: those that are not members of an enumeration. -/
def reportsDefinition (symbol : FlatSymbol) : Bool := symbol.kind ≠ .enumMember

variable {within : List Place}

/-! ### Closed places -/

mutual

/-- A definition in a statement stands in what the statement stands in. -/
theorem Statement.definitions_within {definition : Definition} :
    ∀ {statement : Statement} {within : List Place},
      definition ∈ statement.definitions within → within <:+ definition.within
  | .function name span body, within, h => by
    rcases List.mem_cons.1 h with rfl | hinner
    · exact List.suffix_rfl
    · exact (List.suffix_cons _ _).trans (definitionsOf_within hinner)
  | .class name span bases body, within, h => by
    rcases List.mem_cons.1 h with rfl | hinner
    · exact List.suffix_rfl
    · exact (List.suffix_cons _ _).trans (definitionsOf_within hinner)
  | .compound blocks, within, h => (List.suffix_cons _ _).trans (definitionsOfBlocks_within h)

/-- Definitions in statements stand in what the statements stand in. -/
theorem definitionsOf_within {definition : Definition} :
    ∀ {statements : List Statement} {within : List Place},
      definition ∈ definitionsOf within statements → within <:+ definition.within
  | statement :: statements, within, h => by
    rcases List.mem_append.1 h with hfirst | hrest
    · exact statement.definitions_within hfirst
    · exact definitionsOf_within hrest

/-- Definitions in blocks stand in what the blocks stand in. -/
theorem definitionsOfBlocks_within {definition : Definition} :
    ∀ {blocks : List (List Statement)} {within : List Place},
      definition ∈ definitionsOfBlocks within blocks → within <:+ definition.within
  | block :: blocks, within, h => by
    rcases List.mem_append.1 h with hfirst | hrest
    · exact definitionsOf_within hfirst
    · exact definitionsOfBlocks_within hrest

end

/-- No definition is open that stands in a place that is not searched. -/
theorem open_eq_nil {definitions : List Definition} (hclosed : within.all Place.isOpen = false)
    (h : ∀ definition ∈ definitions, within <:+ definition.within) :
    definitions.filter Definition.isOpen = [] := by
  refine List.filter_eq_nil_iff.2 fun definition hmem hopen => ?_
  obtain ⟨inner, hinner⟩ := h definition hmem
  have : within.all Place.isOpen = true := by
    rw [Definition.isOpen, ← hinner, List.all_append, Bool.and_eq_true] at hopen
    exact hopen.2
  simp [hclosed] at this

/-! ### Open places -/

/-- The symbol of a definition is one. -/
theorem Definition.reportsDefinition_symbol (definition : Definition) :
    reportsDefinition definition.symbol = true := by
  rcases definition with ⟨name, span, _ | _ | _, within⟩ <;>
    simp only [symbol, kind, reportsDefinition]
  · split
    · split <;> rfl
    · rfl
  · rfl
  · rfl

/-- The members of an enumeration are no definitions. -/
theorem members_reportsDefinition (statements : List Statement) :
    (statements.flatMap Statement.members).filter reportsDefinition = [] := by
  refine List.filter_eq_nil_iff.2 fun symbol hsymbol => ?_
  obtain ⟨statement, -, hmember⟩ := List.mem_flatMap.1 hsymbol
  have hkind : symbol.kind = .enumMember := by
    cases statement <;> simp [Statement.members] at hmember
    · obtain ⟨name, -, rfl⟩ := hmember
      rfl
    · obtain ⟨name, -, rfl⟩ := hmember
      rfl
  simp [reportsDefinition, hkind]

mutual

/-- The definitions that a statement reports are the open ones in it. -/
theorem Statement.symbols_eq_open : ∀ (statement : Statement) {within : List Place},
    within.all Place.isOpen = true →
    (statement.symbols (inClass within)).filter reportsDefinition =
      ((statement.definitions within).filter Definition.isOpen).map Definition.symbol
  | .function name span body, within, hopen => by
    have hbody := symbolsOf_eq_open body
      (show (Place.body .function :: within).all Place.isOpen = true from hopen)
    have hself : Definition.isOpen ⟨name, span, .function, within⟩ = true := hopen
    rw [Statement.definitions, List.filter_cons_of_pos hself, List.map_cons, ← hbody]
    exact List.filter_cons_of_pos (Definition.reportsDefinition_symbol ⟨name, span, .function, within⟩)
  | .class name span bases body, within, hopen => by
    have hself : Definition.isOpen ⟨name, span, .ofBases bases, within⟩ = true := hopen
    rw [Statement.definitions, List.filter_cons_of_pos hself, List.map_cons, Statement.symbols]
    by_cases henum : bases.any Base.isEnumeration = true
    · have hbases : Defined.ofBases bases = .enumeration := if_pos henum
      have hbody : (definitionsOf (.body .enumeration :: within) body).filter Definition.isOpen = [] :=
        open_eq_nil rfl fun _ => definitionsOf_within
      rw [if_pos henum, hbases, hbody, List.filter_cons_of_pos (show _ = true from rfl),
        members_reportsDefinition]
      rfl
    · have hbases : Defined.ofBases bases = .plainClass := if_neg henum
      have hbody := symbolsOf_eq_open body
        (show (Place.body .plainClass :: within).all Place.isOpen = true from hopen)
      rw [if_neg henum, hbases, ← hbody, List.filter_cons_of_pos (show _ = true from rfl)]
      rfl
  | .compound blocks, within, hopen => by
    have hblocks : (definitionsOfBlocks (.block :: within) blocks).filter Definition.isOpen = [] :=
      open_eq_nil rfl fun _ => definitionsOfBlocks_within
    rw [Statement.definitions, hblocks]
    rfl
  | .assignment span targets, within, hopen => rfl
  | .typing span target, within, hopen => rfl
  | .simple, within, hopen => rfl

/-- The definitions that statements report are the open ones in them. -/
theorem symbolsOf_eq_open : ∀ (statements : List Statement) {within : List Place},
    within.all Place.isOpen = true →
    (symbolsOf (inClass within) statements).filter reportsDefinition =
      ((definitionsOf within statements).filter Definition.isOpen).map Definition.symbol
  | [], within, hopen => rfl
  | statement :: statements, within, hopen => by
    simp only [symbolsOf, definitionsOf, List.filter_append, List.map_append,
      statement.symbols_eq_open hopen, symbolsOf_eq_open statements hopen]

end

/-! ### All definitions -/

/-- The definitions of a source that are reported are the open ones. -/
theorem sorted_perm_open (tree : List Statement) :
    (((symbolsOf false tree).mergeSort FlatSymbol.startLe).filter reportsDefinition).Perm
      (((definitionsOf [] tree).filter Definition.isOpen).map Definition.symbol) := by
  have hopen : (symbolsOf (inClass []) tree).filter reportsDefinition =
      ((definitionsOf [] tree).filter Definition.isOpen).map Definition.symbol := symbolsOf_eq_open tree rfl
  exact ((List.mergeSort_perm _ _).filter _).trans (.of_eq hopen)

/-- If all are reported, all are open. -/
theorem all_open_of_perm {definitions : List Definition} {symbols : List FlatSymbol}
    (hopen : symbols.Perm ((definitions.filter Definition.isOpen).map Definition.symbol))
    (hall : symbols.Perm (definitions.map Definition.symbol)) :
    ∀ definition ∈ definitions, definition.isOpen = true := by
  have hlength : (definitions.filter Definition.isOpen).length = definitions.length := by
    have := hopen.length_eq.symm.trans hall.length_eq
    rwa [List.length_map, List.length_map] at this
  exact List.length_filter_eq_length_iff.1 hlength

/-- Methods and constructors are the functions whose innermost definition around them is a class. -/
theorem Definition.kind_method_iff (definition : Definition) :
    definition.kind = .method ∨ definition.kind = .constructor ↔
      definition.defined = .function ∧ inClass definition.within = true := by
  rcases definition with ⟨name, span, _ | _ | _, within⟩
  · cases hclass : inClass within
    · simp [kind, hclass]
    · by_cases hname : name = constructorName <;> simp [kind, hclass, hname]
  · simp [kind]
  · simp [kind]

/-- **What is reported of the definitions in a source.** Each open definition is reported once, with its
name, its range and its kind, and nothing else is reported as a definition. So all definitions are reported
just when none stands in a block or in the body of an enumeration. A function is a method or a constructor
just when the innermost definition that it stands in is a class. -/
theorem definitions_reported_iff (tree : List Statement) :
    let reported := ((symbolsOf false tree).mergeSort FlatSymbol.startLe).filter reportsDefinition
    let definitions := definitionsOf [] tree
    reported.Perm ((definitions.filter Definition.isOpen).map Definition.symbol) ∧
      (reported.Perm (definitions.map Definition.symbol) ↔
        ∀ definition ∈ definitions, definition.isOpen = true) ∧
      ∀ definition ∈ definitions, definition.kind = .method ∨ definition.kind = .constructor ↔
        definition.defined = .function ∧ inClass definition.within = true := by
  intro reported definitions
  have hopen : reported.Perm ((definitions.filter Definition.isOpen).map Definition.symbol) :=
    sorted_perm_open tree
  refine ⟨hopen, ⟨fun hall => all_open_of_perm hopen hall, fun hall => ?_⟩,
    fun definition _ => definition.kind_method_iff⟩
  rwa [List.filter_eq_self.2 hall] at hopen

/-- A function in a block, and a method of an enumeration, are definitions that are not reported. -/
theorem definitions_unreported :
    (parse? "if x:\n    def f(): pass\n".toList).map
        (fun tree => ((definitionsOf [] tree).map Definition.symbol, symbolsOf false tree)) =
      some ([⟨"f", .function, .of 1 4 1 17⟩], []) ∧
    (parse? "class E(Enum):\n    def m(self): pass\n".toList).map
        (fun tree => ((definitionsOf [] tree).map Definition.symbol, symbolsOf false tree)) =
      some ([⟨"E", .enum, .of 0 0 1 21⟩, ⟨"m", .method, .of 1 4 1 21⟩],
        [⟨"E", .enum, .of 0 0 1 21⟩]) := by
  constructor
  · decide +kernel
  · decide +kernel

/-- The symbols of a source that is read report the open definitions of its statements. -/
theorem symbols_definitions {source : String} {found : List FlatSymbol} (h : symbols source = .ok found) :
    ∃ tree, parse? source.toList = some tree ∧ (found.filter reportsDefinition).Perm
      (((definitionsOf [] tree).filter Definition.isOpen).map Definition.symbol) := by
  rw [symbols] at h
  split at h
  · cases h
  · split at h
    · cases h
    · split at h
      · rename_i tree hparse
        cases h
        exact ⟨tree, hparse, sorted_perm_open tree⟩
      · cases h

end Vicinity.Indented
