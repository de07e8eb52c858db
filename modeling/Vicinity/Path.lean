import Vicinity.Text.Lines

/-!
# Paths

Slash-separated paths as texts. `Path.parse` reads a path for comparison: repeated slashes and single
dots vanish, double dots stay. `Path.normalize` also resolves double dots, and `Path.relative` names
one path as seen from another. Nothing here looks at a disk.
-/

namespace Vicinity

/-- A path cut at its slashes. -/
structure Path where
  /-- The number of slashes at the beginning: none if the path is relative, and two only if it is
  written with exactly two. -/
  slashes : Nat
  /-- The names between the slashes, empty names and single dots left out. -/
  segments : List String
  deriving DecidableEq, Repr

namespace Path

/-- The nonempty names between the slashes of a text, single dots left out. -/
def segmentsOf (s : String) : List String :=
  ((Text.splitOn '/' s.toList).filter fun part => part != [] && part != ['.']).map String.ofList

/-- The number of leading slashes that count: three or more are one. -/
def slashesOf (s : String) : Nat :=
  match (s.toList.takeWhile (· == '/')).length with
  | 0 => 0
  | 2 => 2
  | _ => 1

/-- Reads a path. -/
def parse (s : String) : Path := ⟨slashesOf s, segmentsOf s⟩

/-- Whether the path starts at the root. -/
def isAbsolute (p : Path) : Bool := p.slashes != 0

/-- Writes a path; the empty relative path is a single dot. -/
def render (p : Path) : String :=
  if p.slashes = 0 && p.segments.isEmpty then "."
  else String.ofList (List.replicate p.slashes '/') ++ "/".intercalate p.segments

/-- The path that `q` names when it is read in the directory `p`. -/
def append (p q : Path) : Path :=
  if q.isAbsolute then q else ⟨p.slashes, p.segments ++ q.segments⟩

instance : Append Path := ⟨append⟩

/-- The last name of a path, empty if it has none. -/
def name (p : Path) : String := p.segments.getLastD ""

/-- The name's part from its last dot on, unless that dot is the first or the last character. -/
def extension (p : Path) : String :=
  let reversed := p.name.toList.reverse
  let tail := reversed.takeWhile (· != '.')
  if tail.isEmpty || reversed.length ≤ tail.length + 1 then ""
  else String.ofList ('.' :: tail.reverse)

/-- Whether the path is `root` or begins with all of its names; double dots are names like any
other. -/
def isBelow (p root : Path) : Bool :=
  if root.slashes = 0 && root.segments.isEmpty then p.slashes = 0
  else p.slashes = root.slashes && root.segments.isPrefixOf p.segments

/-- Puts one name after resolved names: a double dot takes the last one away, and stays only at the
beginning of a relative path. -/
def pushSegment (absolute : Bool) (resolved : List String) (segment : String) : List String :=
  if segment != ".." then resolved ++ [segment]
  else match resolved.getLast? with
    | none => if absolute then [] else [".."]
    | some ".." => resolved ++ [".."]
    | some _ => resolved.dropLast

/-- The path with its double dots resolved. -/
def normalize (p : Path) : Path :=
  ⟨p.slashes, p.segments.foldl (pushSegment p.isAbsolute) []⟩

/-- The longest common beginning of two lists. -/
def commonStart : List String → List String → List String
  | a :: as, b :: bs => if a = b then a :: commonStart as bs else []
  | _, _ => []

/-- The names that lead from one directory, given by its names, to the place with the names `goal`. -/
def steps (start goal : List String) : List String :=
  let shared := (commonStart start goal).length
  List.replicate (start.length - shared) ".." ++ goal.drop shared

/-- The text of the way from the directory `start` to `p`, both with their double dots resolved; a
single dot if they are the same. A relative path is read in the directory `start`, unless that is
relative as well: then both are read in the same directory. There is no way from a relative
directory to an absolute path. -/
def wayFrom (p start : Path) : Option String :=
  let p := if start.isAbsolute then start ++ p else p
  if p.isAbsolute != start.isAbsolute then none
  else match steps start.normalize.segments p.normalize.segments with
    | [] => some "."
    | names => some ("/".intercalate names)

end Path

/-- A document's path as seen from the workspace root; unchanged if there is no root or if its way
from the root begins with two dots. -/
def relativePath (path : String) (root : Option String) : String :=
  match root with
  | none => path
  | some root =>
    if root.isEmpty || path.isEmpty then path
    else match (Path.parse path).wayFrom (Path.parse root) with
      | some way => if "..".toList.isPrefixOf way.toList then path else way
      | none => path

end Vicinity
