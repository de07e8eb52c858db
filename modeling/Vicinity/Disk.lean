import Vicinity.Path
import Vicinity.Text.Lines

/-!
# Disks

A disk is a tree of directories and files, with the directory in which relative paths are read. Paths
are followed name by name: a double dot leads to the parent directory, and nothing lies below a file.
A file's text is its bytes read as UTF-8 with every line end turned into a line feed.
-/

namespace Vicinity

/-- What a name on a disk stands for. -/
inductive DiskEntry where
  | file (bytes : ByteArray)
  | directory (children : List (String × DiskEntry))

/-- Why a file cannot be read. -/
inductive ReadError where
  /-- Nothing has this path. -/
  | missing
  /-- The path leads through a file. -/
  | throughFile
  /-- The path is a directory's. -/
  | isDirectory
  /-- The bytes are not UTF-8. -/
  | notText
  deriving DecidableEq, Repr

namespace DiskEntry

/-- Follows names downwards from an entry; `above` holds the directories passed, nearest first. -/
def follow (here : DiskEntry) (above : List DiskEntry) : List String → Except ReadError DiskEntry
  | [] => .ok here
  | name :: more =>
    match here with
    | file _ => .error .throughFile
    | directory children =>
      if name = ".." then
        match above with
        | [] => follow here [] more
        | parent :: rest => follow parent rest more
      else match children.lookup name with
        | some next => follow next (here :: above) more
        | none => .error .missing

/-- The children with the entry of one name replaced, or added at the end. -/
def setChild (children : List (String × DiskEntry)) (name : String) (entry : DiskEntry) :
    List (String × DiskEntry) :=
  match children with
  | [] => [(name, entry)]
  | (n, e) :: more => if n = name then (name, entry) :: more else (n, e) :: setChild more name entry

/-- Puts an entry at the end of a way of names, making directories where there are none. -/
def put (entry : DiskEntry) : List String → DiskEntry → DiskEntry
  | [], _ => entry
  | name :: more, here =>
    let children := match here with
      | directory children => children
      | file _ => []
    directory (setChild children name (put entry more ((children.lookup name).getD (directory []))))

/-- Takes the entry at the end of a way of names away. -/
def remove : List String → DiskEntry → DiskEntry
  | [], here => here
  | _, file bytes => file bytes
  | [name], directory children => directory (children.filter (·.1 != name))
  | name :: more, directory children =>
    match children.lookup name with
    | some next => directory (setChild children name (remove more next))
    | none => directory children

end DiskEntry

/-- A tree of directories and files. -/
structure Disk where
  /-- The root directory. -/
  root : DiskEntry := .directory []
  /-- The names that lead from the root to the directory in which relative paths are read. -/
  workingDirectory : List String := []

namespace Disk

/-- The names that lead from the root to a path, double dots among them. -/
def segmentsOf (disk : Disk) (path : String) : List String :=
  let p := Path.parse path
  if p.isAbsolute then p.segments else disk.workingDirectory ++ p.segments

/-- The entry at a path. -/
def entry (disk : Disk) (path : String) : Except ReadError DiskEntry :=
  disk.root.follow [] (disk.segmentsOf path)

/-- Whether there is anything at a path. -/
def exists? (disk : Disk) (path : String) : Bool := (disk.entry path).isOk

/-- Whether there is a directory at a path. -/
def isDirectory (disk : Disk) (path : String) : Bool :=
  match disk.entry path with
  | .ok (.directory _) => true
  | _ => false

/-- Whether there is a file at a path. -/
def isFile (disk : Disk) (path : String) : Bool :=
  match disk.entry path with
  | .ok (.file _) => true
  | _ => false

/-- The text that a file's bytes write. -/
def decode (bytes : ByteArray) : Except ReadError String :=
  match String.fromUTF8? bytes with
  | some text =>
    .ok (if text.contains '\r' then String.ofList (Text.unifyLineEnds text.toList) else text)
  | none => .error .notText

/-- The text of the file at a path. -/
def readText (disk : Disk) (path : String) : Except ReadError String :=
  match disk.entry path with
  | .ok (.file bytes) => decode bytes
  | .ok (.directory _) => .error .isDirectory
  | .error e => .error e

/-- The disk with an entry at a path, whatever was there before. -/
def put (disk : Disk) (path : String) (entry : DiskEntry) : Disk :=
  { disk with root := DiskEntry.put entry (disk.segmentsOf path) disk.root }

/-- The disk without what is at a path. -/
def delete (disk : Disk) (path : String) : Disk :=
  { disk with root := DiskEntry.remove (disk.segmentsOf path) disk.root }

end Disk

end Vicinity
