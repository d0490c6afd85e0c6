import FileDepot.Bytes

/-!
# Files

A stored file: a path, contents, whether it is open, and the client that holds its lock.
-/

namespace FileDepot

/-- Identifies a client connection. Numbers are never reused. -/
structure ClientId where
  number : Nat
deriving DecidableEq, Repr

/-- A stored file. Files created in turn under one path differ in their generation. -/
structure File where
  path : String
  contents : Bytes
  isOpen : Bool
  lockOwner : Option ClientId
  generation : Nat
deriving DecidableEq

namespace File

/-- A new file is empty and open, and locked by its creator if asked for. -/
def create (path : String) (owner : ClientId) (lock : Bool) (generation : Nat) : File where
  path
  contents := []
  isOpen := true
  lockOwner := if lock then some owner else none
  generation

/-- The length of the contents in bytes. -/
def size (f : File) : Nat :=
  f.contents.length

def isLocked (f : File) : Bool :=
  f.lockOwner.isSome

/-- A client may change, close or remove a file that is unlocked or that it holds itself. -/
def allows (f : File) (client : ClientId) : Bool :=
  f.lockOwner.all (· = client)

/-- The file marked as open or as closed. -/
def setOpen (isOpen : Bool) (f : File) : File :=
  { f with isOpen }

/-- The file with its lock given to a client, or to nobody. -/
def setLockOwner (lockOwner : Option ClientId) (f : File) : File :=
  { f with lockOwner }

@[simp] theorem isOpen_setOpen (isOpen : Bool) (f : File) : (f.setOpen isOpen).isOpen = isOpen :=
  rfl

@[simp] theorem isOpen_setLockOwner (owner : Option ClientId) (f : File) :
    (f.setLockOwner owner).isOpen = f.isOpen :=
  rfl

/-- The file after it has been opened. -/
def opened (owner : ClientId) (lock : Bool) (f : File) : File :=
  (f.setOpen true).setLockOwner (if lock then some owner else f.lockOwner)

/-- The file without its lock. -/
def unlocked (f : File) : File :=
  f.setLockOwner none

@[simp] theorem lockOwner_unlocked (f : File) : f.unlocked.lockOwner = none :=
  rfl

/-- The file after its contents have been changed. -/
def edited (change : Bytes → Bytes) (f : File) : File :=
  { f with contents := change f.contents }

/-- The file after a client has let go of its locks. -/
def releasedBy (owner : ClientId) (f : File) : File :=
  if f.lockOwner = some owner then f.unlocked else f

end File

end FileDepot
