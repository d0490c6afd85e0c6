import FileDepot.Bytes

/-!
# Folders

The part of a file system that a server touches, seen through paths: the working directory, those
above it and the root, with some files in them and no other directories.
-/

namespace FileDepot

/-- Why a path leads to no file, or its file to no text. -/
inductive PathFault where
  | missing
  | isDirectory
  | notDirectory
  | nameTooLong
  | innerNul
  | notText
deriving DecidableEq, Repr

namespace PathFault

/-- The wording of a fault. -/
def message : PathFault → String
  | .missing => "No such file or directory (os error 2)"
  | .isDirectory => "Is a directory (os error 21)"
  | .notDirectory => "Not a directory (os error 20)"
  | .nameTooLong => "File name too long (os error 36)"
  | .innerNul => "file name contained an unexpected NUL byte"
  | .notText => "stream did not contain valid UTF-8"

end PathFault

/-- A directory. -/
inductive Directory where
  | root
  /-- The working directory, or the one so many levels above it. -/
  | above (levels : Nat)
deriving DecidableEq, Repr

/-- The directory that two dots lead to. The root is its own. -/
def Directory.parent : Directory → Directory
  | .root => .root
  | .above levels => .above (levels + 1)

/-- A name in a directory. -/
structure Entry where
  directory : Directory
  name : String
deriving DecidableEq, Repr

/-- What a path leads to. -/
inductive Target where
  | directory (d : Directory)
  /-- A name, whether there is a file to it or not. A slash behind it asks for a directory. -/
  | entry (e : Entry) (slash : Bool)
deriving DecidableEq, Repr

/-- The files in some directories. -/
structure Folder where
  files : List (Entry × Bytes) := []

namespace Folder

/-- The longest name of a file in bytes. -/
def maxName : Nat := 255

/-- One more than the longest path in bytes. -/
def pathLimit : Nat := 4096

/-- The contents of the file to a name. -/
def contents (folder : Folder) (e : Entry) : Except PathFault Bytes :=
  if maxName < e.name.utf8ByteSize then .error .nameTooLong
  else
    match folder.files.lookup e with
    | some bytes => .ok bytes
    | none => .error .missing

/-- The folder without the file to a name. -/
def erase (folder : Folder) (e : Entry) : Folder :=
  { files := folder.files.filter (·.1 ≠ e) }

/-- The folder with a file to a name, in place of the one it may have. -/
def put (folder : Folder) (e : Entry) (bytes : Bytes) : Folder :=
  { files := (e, bytes) :: (folder.erase e).files }

/-- Follows the parts of a path from a directory on. Empty parts and single dots stay where they
are. Nothing leads through a file, nor through a name without one. -/
def walk (folder : Folder) (d : Directory) : List String → Except PathFault Target
  | [] => .ok (.directory d)
  | part :: parts =>
    if part = "" || part = "." then walk folder d parts
    else if part = ".." then walk folder d.parent parts
    else if parts.all (· = "") then .ok (.entry ⟨d, part⟩ !parts.isEmpty)
    else
      match folder.contents ⟨d, part⟩ with
      | .ok _ => .error .notDirectory
      | .error fault => .error fault

/-- Follows a path. -/
def follow (folder : Folder) (path : String) : Except PathFault Target :=
  if path.any (· = '\x00') then .error .innerNul
  else if pathLimit ≤ path.utf8ByteSize then .error .nameTooLong
  else if path = "" then .error .missing
  else folder.walk (if path.startsWith "/" then .root else .above 0) (path.splitOn "/")

/-- The file that a path leads to, and its contents. -/
def find (folder : Folder) (path : String) : Except PathFault (Entry × Bytes) := do
  match ← folder.follow path with
  | .directory _ => .error .isDirectory
  | .entry e slash =>
    let bytes ← folder.contents e
    if slash then .error .notDirectory else .ok (e, bytes)

/-- The contents of the file at a path. -/
def read (folder : Folder) (path : String) : Except PathFault Bytes :=
  (folder.find path).map (·.2)

/-- Removes the file at a path. -/
def remove (folder : Folder) (path : String) : Except PathFault Folder :=
  (folder.find path).map fun (e, _) => folder.erase e

/-- Adds bytes to the end of the file at a path, which is made if there is none. A path that asks
for a directory is taken for one, whether it is there or not. -/
def append (folder : Folder) (path : String) (bytes : Bytes) : Except PathFault Folder := do
  match ← folder.follow path with
  | .directory _ | .entry _ true => .error .isDirectory
  | .entry e false =>
    match folder.contents e with
    | .ok old => .ok (folder.put e (old ++ bytes))
    | .error .missing => .ok (folder.put e bytes)
    | .error fault => .error fault

end Folder

end FileDepot
