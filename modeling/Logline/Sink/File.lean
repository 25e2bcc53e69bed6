import Logline.Sink.Basic
/-!
Log files as sinks.  A file is locked by whoever has it open, so that lines of
two writers never mix; writes are kept back until a flush.
-/
namespace Logline

/-- A directory of files, some of them locked.  Files in the directories above
it are kept along with its own, each under the shortest path that leads to it
(`Directory.keyOf`). -/
structure Directory where
  path : Text
  files : Entries Bytes
  locked : List Text
deriving DecidableEq, Repr

/-- A file that is open for appending, in its directory. -/
structure LogFile where
  directory : Directory
  name : Text
  /-- What has been written since the last flush. -/
  buffer : Bytes
deriving DecidableEq, Repr

namespace Directory

def empty (path : Text) : Directory := ⟨path, [], []⟩

/-- The path of a file. -/
def pathOf (name : Text) (dir : Directory) : Text := dir.path ++ '/' :: name

/-- The greatest number of bytes in the name of a file. -/
def maxNameSize : Nat := 255

/-- The greatest number of bytes in a path. -/
def maxPathSize : Nat := 4095

def nameTooLong : Error := .io "File name too long (os error 36)".toList

def notFound : Error := .io "No such file or directory (os error 2)".toList

def notADirectory : Error := .io "Not a directory (os error 20)".toList

def isADirectory : Error := .io "Is a directory (os error 21)".toList

def nullInName : Error :=
  .io "file name contained an unexpected NUL byte".toList

/-- The parts of a path between slashes. -/
def parts : Text → List Text
  | [] => [[]]
  | '/' :: rest => [] :: parts rest
  | c :: rest =>
    match parts rest with
    | part :: others => (c :: part) :: others
    | [] => [[c]]

/-- Where a walk stands: so many levels above the directory.  Above it there
are directories only, each in the one above. -/
abbrev Place := Nat

/-- What a file is kept under that has this name at a place. -/
def keyOf (place : Place) (name : Text) : Text :=
  Text.join ['/'] (List.replicate place ['.', '.'] ++ [name])

/-- The place behind a part of a path that has more parts behind it.  No other
directory than those above is ever there. -/
def enter (dir : Directory) (place : Place) (part : Text) :
    Except Error Place :=
  if part == ['.'] then .ok place
  else if part == ['.', '.'] then .ok (place + 1)
  else if maxNameSize < part.size then .error nameTooLong
  else if (dir.files.get? (keyOf place part)).isSome then .error notADirectory
  else .error notFound

/-- The file that the last part of a path names at a place. -/
def select (place : Place) (part : Text) : Except Error Text :=
  if part == ['.'] || part == ['.', '.'] then .error isADirectory
  else if maxNameSize < part.size then .error nameTooLong
  else .ok (keyOf place part)

/-- The file that a relative path names.  A path with a slash at its end names
a directory, whether or not there is one. -/
def resolve (path : Text) (dir : Directory) : Except Error Text :=
  if path.contains '\x00' then .error nullInName
  else if maxPathSize < (dir.pathOf path).size then .error nameTooLong
  else do
    let named := (parts path).filter (!List.isEmpty ·)
    let place ← named.dropLast.foldlM dir.enter 0
    match named.getLast? with
    | some part =>
      if path.getLast? = some '/' then .error isADirectory
        else select place part
    | none => .error isADirectory

/-- Opens a file for appending and locks it; a file that is not there yet is
created. -/
def openFile (path : Text) (dir : Directory) : Except Error LogFile := do
  let name ← dir.resolve path
  if dir.locked.contains name then .error (.fileLock (dir.pathOf path))
  else
    let content := (dir.files.get? name).getD []
    return {
      directory := { dir with
        files := dir.files.insert name content
        locked := name :: dir.locked }
      name
      buffer := [] }

/-- What has been flushed to a file. -/
def read? (path : Text) (dir : Directory) : Option Bytes :=
  match dir.resolve path with
  | .ok name => dir.files.get? name
  | .error _ => none

end Directory

namespace LogFile

def write (bytes : Bytes) (file : LogFile) : LogFile :=
  { file with buffer := file.buffer ++ bytes }

/-- Appends what has been kept back. -/
def flush (file : LogFile) : LogFile :=
  let content := (file.directory.files.get? file.name).getD []
  { file with
    directory := { file.directory with
      files := file.directory.files.insert file.name (content ++ file.buffer) }
    buffer := [] }

/-- The directory after flushing and unlocking the file. -/
def close (file : LogFile) : Directory :=
  let dir := file.flush.directory
  { dir with locked := dir.locked.filter (· ≠ file.name) }

/-- Log files as sinks. -/
def sink : Sink LogFile where
  name := "file".toList
  write file bytes := (file.write bytes, .done bytes.length)
  flush file := (file.flush, .done ())

end LogFile

example : ((Directory.empty []).resolve "./a".toList).toOption =
    some ['a'] := by decide

example : ((Directory.empty []).resolve "a/b".toList).toOption = none := by
  decide

end Logline
