import Vicinity.Disk

/-!
# Reading the beginning of a file

A file that is opened as text is read in chunks until enough characters have been seen; bytes behind
them are not looked at. A character whose bytes are cut off at the end of a chunk waits for the next
one, and so does a carriage return, which may be the first half of a line end. Bytes that are not UTF-8
are found as soon as they are read.

How a program sees the files of its system is a `FileAccess`; that of a disk answers every question.
-/

namespace Vicinity

/-- An error that the system reports. -/
structure SystemError where
  message : String
  deriving DecidableEq, Repr

/-- Why a file cannot be read. -/
inductive ReadFailure where
  /-- The system does not open it, or does not read from it. -/
  | refused (error : SystemError)
  /-- What has been read of it is not UTF-8. -/
  | notText
  deriving DecidableEq, Repr

/-- How a program sees the files of its system. -/
structure FileAccess where
  /-- Whether anything has a path. -/
  exists? : String → Except SystemError Bool
  /-- Whether a path is a file's. -/
  isFile : String → Except SystemError Bool
  /-- The first `limit` characters of the text of a file; all of it if it has no more. -/
  readUpTo : (limit : Nat) → String → Except ReadFailure (List Char)

namespace Reading

/-- Bytes with which a character may end: one of these completes any beginning of a character. -/
def endings : List (List UInt8) :=
  [[0x80], [0x80, 0x80], [0xa0, 0x80], [0x80, 0x80, 0x80], [0x90, 0x80, 0x80]]

/-- Whether bytes are the beginning of a character. -/
def isBeginning (bytes : ByteArray) : Bool :=
  endings.any fun ending => (String.fromUTF8? (bytes ++ ending.toByteArray)).isSome

/-- The text of the first `stop` bytes, the last `pending` of which are the beginning of a character. -/
def textBefore? (bytes : ByteArray) (stop pending : Nat) : Option String :=
  if pending = 0 ∨ isBeginning (bytes.extract (stop - pending) stop) then
    String.fromUTF8? (bytes.extract 0 (stop - pending))
  else none

/-- The text of the first `stop` bytes, but for the beginning of a character at their end. -/
def text? (bytes : ByteArray) (stop : Nat) : Option String :=
  [0, 1, 2, 3].findSome? (textBefore? bytes stop)

/-- What is seen of a text that may go on: line ends are line feeds, and a carriage return at the end
is not seen yet. -/
def seen (text : String) : List Char :=
  let s := text.toList
  Text.unifyLineEnds (if s.getLast? = some '\r' then s.dropLast else s)

/-- The smallest size of a chunk. -/
def minChunk : Nat := 8192

/-- The size of the next chunk where `missing` characters are wanted and the last chunk had `size` bytes
of `count` characters. -/
def chunkSize (missing size count : Nat) : Nat := max minChunk (max missing (missing * size / count))

/-- Reads on where `start` bytes with `before` characters have been read, with a chunk of some size;
none if what is read is not UTF-8. -/
def readOn (bytes : ByteArray) (limit start before size : Nat) : Option (List Char) :=
  let stop := min (start + size) bytes.size
  if start < stop then
    match text? bytes stop with
    | none => none
    | some text =>
      let found := seen text
      if limit ≤ found.length then some (found.take limit)
      else readOn bytes limit stop found.length
        (chunkSize (limit - found.length) (stop - start) (found.length - before))
  else (String.fromUTF8? bytes).map fun text => (Text.unifyLineEnds text.toList).take limit
termination_by bytes.size - start
decreasing_by
  have : stop ≤ bytes.size := Nat.min_le_right _ _
  omega

/-- The first `limit` characters of the text that a file's bytes write; none if what is read for them is
not UTF-8. -/
def upTo (limit : Nat) (bytes : ByteArray) : Option (List Char) :=
  readOn bytes limit 0 0 (chunkSize limit 0 0)

end Reading

/-- The access to the files of a disk, which answers every question. -/
def Disk.access (disk : Disk) : FileAccess where
  exists? path := .ok (disk.exists? path)
  isFile path := .ok (disk.isFile path)
  readUpTo limit path :=
    match disk.entry path with
    | .ok (.file bytes) =>
      match Reading.upTo limit bytes with
      | some text => .ok text
      | none => .error .notText
    | .ok (.directory _) => .error (.refused ⟨"[Errno 21] Is a directory: '" ++ path ++ "'"⟩)
    | .error _ => .error (.refused ⟨"[Errno 2] No such file or directory: '" ++ path ++ "'"⟩)

end Vicinity
