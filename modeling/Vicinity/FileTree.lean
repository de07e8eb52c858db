import Vicinity.Disk.Files

/-!
# File trees

A file tree is a snapshot of a workspace with a bounded number of nodes. It is made by inserting the
files one after another, as long as the nodes that the next file needs still fit in. Rendering shows
directories before files and each in the order of their names.
-/

namespace Vicinity

/-- A node of a file tree. -/
structure FileTree where
  name : String
  path : String
  isDirectory : Bool
  children : List FileTree := []
  deriving Repr, Inhabited

namespace FileTree

/-- The child with a name. -/
def child? (tree : FileTree) (name : String) : Option FileTree :=
  tree.children.find? (·.name == name)

mutual

/-- The number of nodes below a node. -/
def count : FileTree → Nat
  | ⟨_, _, _, children⟩ => countAll children

/-- The number of nodes of several trees. -/
def countAll : List FileTree → Nat
  | [] => 0
  | tree :: more => 1 + tree.count + countAll more

end

/-- The number of names on a way down from a node for which there is no node yet. -/
def missing (tree : FileTree) : List String → Nat
  | [] => 0
  | name :: more =>
    match tree.child? name with
    | some child => child.missing more
    | none => more.length + 1

/-- The children with the first one of a name replaced, or with a new one at the end. -/
def setChild (new : FileTree) : List FileTree → List FileTree
  | [] => [new]
  | tree :: more => if tree.name = new.name then new :: more else tree :: setChild new more

/-- The path of a name in the directory with a path. -/
def childPath (path name : String) : String :=
  if path.isEmpty || path.endsWith "/" then path ++ name else path ++ "/" ++ name

/-- The tree with nodes for all the names on a way down; `isDirectory` tells which paths are
directories. -/
def insert (isDirectory : String → Bool) (tree : FileTree) : List String → FileTree
  | [] => tree
  | name :: more =>
    let path := childPath tree.path name
    let child := (tree.child? name).getD { name, path, isDirectory := isDirectory path }
    { tree with children := setChild (child.insert isDirectory more) tree.children }

/-- Inserts files until the first one whose nodes do not fit in. -/
def insertWhileFits (isDirectory : String → Bool) (tree : FileTree) (room : Int) :
    List (List String) → FileTree
  | [] => tree
  | way :: more =>
    let needed := tree.missing way
    if room < needed then tree
    else insertWhileFits isDirectory (tree.insert isDirectory way) (room - needed) more

/-- The snapshot of a workspace: at most `limit` nodes below the root. -/
def ofDisk (disk : Disk) (root : String) (exclude : List String) (limit : Int) : FileTree :=
  let rootPath := Path.parse root
  let path := rootPath.render
  let top : FileTree :=
    { name := if rootPath.name.isEmpty then path else rootPath.name, path, isDirectory := true }
  insertWhileFits disk.isDirectory top limit
    ((disk.files path exclude limit).map fun file =>
      (Text.splitOn '/' file.toList).map String.ofList)

/-- What marks a touched file. -/
def touchedMark : String := " *"

/-- The order of siblings: directories before files, each by name. -/
def siblingLe (a b : Bool × String) : Bool :=
  if a.1 = b.1 then decide (a.2 ≤ b.2) else a.1

mutual

/-- The lines that show a tree, one for a node, each level two spaces deeper. -/
def render (touched : List String) (indent : String) : FileTree → List String
  | ⟨name, path, isDirectory, children⟩ =>
    (indent ++ name ++ if touched.contains path then touchedMark else "") ::
      if isDirectory then
        ((renderAll touched (indent ++ "  ") children).mergeSort
          fun a b => siblingLe a.1 b.1).flatMap (·.2)
      else []

/-- The lines of several trees, each with what orders it among its siblings. -/
def renderAll (touched : List String) (indent : String) :
    List FileTree → List ((Bool × String) × List String)
  | [] => []
  | tree :: more =>
    ((tree.isDirectory, tree.name), tree.render touched indent) :: renderAll touched indent more

end

end FileTree

end Vicinity
