/-!
# Settings

What can be set about the extraction of context, the file tree, and the layout of the result, with the
values that hold if nothing is set and the bounds that are declared for numbers.
-/

namespace Vicinity

/-- The least and the largest value that a number may have. -/
structure Bounds where
  least : Int
  most : Int
  deriving DecidableEq, Repr

/-- A number is within bounds. -/
def Bounds.Contains (bounds : Bounds) (n : Int) : Prop := bounds.least ≤ n ∧ n ≤ bounds.most

instance (bounds : Bounds) (n : Int) : Decidable (bounds.Contains n) :=
  inferInstanceAs (Decidable (_ ∧ _))

/-- Settings of the file tree. -/
structure TreeConfig where
  /-- The largest number of nodes below the root. -/
  limit : Int := 200
  /-- Globs of what is left out: build products, dependencies, virtual environments. -/
  exclude : List String :=
    ["**/node_modules/**", "**/lib/**", "**/bin/**", "**/dist/**", "**/build/**", "**/.git/**",
      "**/.venv/**", "**/venv/**", "**/__pycache__/**", "**/pyvenv.cfg", "**/isympy.1"]
  deriving DecidableEq, Repr

/-- The bounds of the number of nodes. -/
def TreeConfig.limitBounds : Bounds := ⟨1, 10000⟩

/-- Which sections the layout shows. -/
structure LayoutConfig where
  environment : Bool := true
  runtimeVersion : Bool := true
  focusedLines : Bool := true
  packages : Bool := true
  fileTree : Bool := false
  functionDefinition : Bool := true
  typeDefinitions : Bool := true
  referencedFunctions : Bool := false
  deriving DecidableEq, Repr

/-- The settings of an extraction. -/
structure Config where
  /-- How many steps types are followed from one declaration to the next. -/
  depth : Int := 2
  /-- Whether comments stay in declarations of types. -/
  includeComments : Bool := false
  /-- Parts of paths that mark libraries and runtimes, whose types are left out. -/
  ignoreTypePaths : List String :=
    ["node_modules", "lib.es", "go/src", "stdlib", "python3", "site-packages", "toml.hpp"]
  /-- Whether the functions that a function refers to are collected. -/
  referencedFunctions : Bool := false
  /-- Whether references are asked for as well when these are collected. -/
  includeReferences : Bool := false
  /-- How many lines are shown before and after the focus line. -/
  focusRadius : Int := 3
  fileTree : TreeConfig := {}
  layout : LayoutConfig := {}
  deriving DecidableEq, Repr

namespace Config

/-- The bounds of the number of steps. -/
def depthBounds : Bounds := ⟨0, 10⟩

/-- The bounds of the number of lines around the focus line. -/
def focusRadiusBounds : Bounds := ⟨0, 50⟩

/-- The numbers among the settings with the bounds that are declared for them. -/
def numbers : List (Bounds × (Config → Int)) :=
  [(depthBounds, (·.depth)), (focusRadiusBounds, (·.focusRadius)),
    (TreeConfig.limitBounds, (·.fileTree.limit))]

/-- The settings with what a command line asks for in addition. -/
def override (config : Config) (depth : Option Int) (tree referenced : Bool) : Config :=
  { config with
    depth := depth.getD config.depth
    referencedFunctions := config.referencedFunctions || referenced
    layout := { config.layout with
      fileTree := config.layout.fileTree || tree
      referencedFunctions := config.layout.referencedFunctions || referenced } }

end Config

end Vicinity
