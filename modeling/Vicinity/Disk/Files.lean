import Vicinity.Disk
import Vicinity.Text.Blank
import Vicinity.Glob

/-!
# The files of a workspace

`Disk.files` lists the files below a root directory by their paths as seen from the root, leaving out
what the exclusion globs name. The directories are walked with their names in order, each directory's
own files before those of its subdirectories, and an excluded directory is not entered; a limit cuts
this walk short, and what it has found is given in order.
-/

namespace Vicinity

/-- The text that an exclusion glob is matched against: the path with a slash in front, and with one at
the end if it is a directory's. -/
def exclusionText (path : String) (isDirectory : Bool) : List Char :=
  let inner := Text.trimEndWhile (· == '/') (path.toList.dropWhile (· == '/'))
  '/' :: inner ++ if isDirectory then ['/'] else []

/-- Whether one of the globs matches a path as seen from the workspace root. -/
def isExcluded (globs : List Glob) (path : String) (isDirectory : Bool) : Bool :=
  let text := exclusionText path isDirectory
  globs.any fun g => g.matchesAll text

/-- The path of a name in a directory as seen from the root, which itself is the empty path. -/
def inDirectory (directory name : String) : String :=
  if directory.isEmpty then name else directory ++ "/" ++ name

/-- Texts in code point order. -/
def sortedTexts (texts : List String) : List String := texts.mergeSort fun a b => decide (a ≤ b)

theorem mem_sortedTexts {texts : List String} {text : String} :
    text ∈ sortedTexts texts ↔ text ∈ texts := List.mem_mergeSort

theorem perm_sortedTexts (texts : List String) : (sortedTexts texts).Perm texts :=
  List.mergeSort_perm _ _

/-- What has been sorted by texts is in their order. -/
theorem pairwise_mergeSort_by {α : Type} (key : α → String) (l : List α) :
    (l.mergeSort fun a b => decide (key a ≤ key b)).Pairwise fun a b => key a ≤ key b := by
  have hsorted : (l.mergeSort fun a b => decide (key a ≤ key b)).Pairwise
      fun a b => decide (key a ≤ key b) := by
    refine List.pairwise_mergeSort (fun a b c hab hbc => ?_) (fun a b => ?_) l
    · simp only [decide_eq_true_eq] at *
      exact String.le_trans hab hbc
    · simpa using String.le_total (key a) (key b)
  exact hsorted.imp fun h => by simpa using h

theorem pairwise_sortedTexts (texts : List String) : (sortedTexts texts).Pairwise (· ≤ ·) :=
  pairwise_mergeSort_by id texts

theorem sortedTexts_of_pairwise {texts : List String} (h : texts.Pairwise (· ≤ ·)) :
    sortedTexts texts = texts :=
  List.mergeSort_of_pairwise (h.imp fun hle => by simpa using hle)

/-- Texts in order are told by which texts they are, and how often each. -/
theorem sortedTexts_congr {texts more : List String} (h : texts.Perm more) :
    sortedTexts texts = sortedTexts more := by
  have hperm : (sortedTexts texts).Perm (sortedTexts more) :=
    (perm_sortedTexts texts).trans (h.trans (perm_sortedTexts more).symm)
  exact hperm.eq_of_pairwise (fun a b _ _ => String.le_antisymm) (pairwise_sortedTexts texts)
    (pairwise_sortedTexts more)

/-- Named blocks in the order of their names, one after the other. -/
def joinByName (blocks : List (String × List String)) : List String :=
  (blocks.mergeSort fun a b => decide (a.1 ≤ b.1)).flatMap (·.2)

namespace DiskEntry

/-- The names of a directory's own files. -/
def fileNames : List (String × DiskEntry) → List String
  | [] => []
  | (name, .file _) :: more => name :: fileNames more
  | (_, .directory _) :: more => fileNames more

mutual

/-- The files below an entry that has the path `at_`, in the order of the walk. -/
def walk (globs : List Glob) (at_ : String) : DiskEntry → List String
  | .file _ => []
  | .directory children =>
    let own := (sortedTexts (fileNames children)).map (inDirectory at_)
    own.filter (fun path => !isExcluded globs path false) ++
      joinByName (walkDirectories globs at_ children)

/-- The files below each directory that is not excluded, with its name. -/
def walkDirectories (globs : List Glob) (at_ : String) :
    List (String × DiskEntry) → List (String × List String)
  | [] => []
  | (_, .file _) :: more => walkDirectories globs at_ more
  | (name, .directory children) :: more =>
    let path := inDirectory at_ name
    let rest := walkDirectories globs at_ more
    if isExcluded globs path true then rest
    else (name, walk globs path (.directory children)) :: rest

end

end DiskEntry

/-- The paths of the files below `root`, as seen from there and in order: as many as the limit allows
(but at least one) of those that are not excluded, taken in the order of the walk. -/
def Disk.files (disk : Disk) (root : String) (exclude : List String) (limit : Int) : List String :=
  match disk.entry root with
  | .ok entry => sortedTexts ((entry.walk (exclude.map Glob.ofText) "").take (max limit 1).toNat)
  | .error _ => []

end Vicinity
