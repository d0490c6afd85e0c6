import FileDepot.Store.Basic

/-!
# Operations on a store

What clients do to files. Each operation either is refused, and then leaves the store as it was,
or succeeds on the one file it names; only writes and appends evict other files.
-/

namespace FileDepot

/-- The result of an operation and the store after it. -/
abbrev Outcome (α : Type) := Except StoreError α × Store

namespace Store

/-- Refuses an operation. -/
def refuse {α : Type} (s : Store) (e : StoreError) : Outcome α :=
  (.error e, s)

/-- Stores a new empty file, open, and locked by its owner if asked for. Nothing is evicted. -/
def create (s : Store) (path : String) (owner : ClientId) (lock : Bool) : Outcome Unit :=
  match s.find? path with
  | some _ => s.refuse .alreadyExists
  | none =>
    let f := File.create path owner lock s.nextGeneration
    (.ok (), { s with
      buckets := s.buckets.push f
      chooser := s.chooser.enter f
      totals := s.totals.add 1 1 0
      nextGeneration := s.nextGeneration + 1 })

/-- Opens a closed file, and locks it if asked for. -/
def openFile (s : Store) (path : String) (owner : ClientId) (lock : Bool) : Outcome Unit :=
  match s.find? path with
  | none => s.refuse .notFound
  | some f =>
    if f.isOpen then s.refuse .alreadyOpen
    else if f.allows owner then
      (.ok (), (s.modify path (File.opened owner lock)).count 1 0 0)
    else s.refuse .forbidden

/-- Closes an open file. -/
def close (s : Store) (path : String) (owner : ClientId) : Outcome Unit :=
  match s.find? path with
  | none => s.refuse .notFound
  | some f =>
    if !f.isOpen then s.refuse .alreadyClosed
    else if f.allows owner then
      (.ok (), (s.modify path (File.setOpen false)).count (-1) 0 0)
    else s.refuse .forbidden

/-- Locks an unlocked file; a client's own lock is in the way too. -/
def lock (s : Store) (path : String) (owner : ClientId) : Outcome Unit :=
  match s.find? path with
  | none => s.refuse .notFound
  | some f =>
    if f.isLocked then s.refuse .alreadyLocked
    else (.ok (), s.modify path (File.setLockOwner (some owner)))

/-- Gives up a lock. -/
def unlock (s : Store) (path : String) (owner : ClientId) : Outcome Unit :=
  match s.find? path with
  | none => s.refuse .notFound
  | some f =>
    match f.lockOwner with
    | none => s.refuse .alreadyUnlocked
    | some holder =>
      if holder = owner then (.ok (), s.modify path File.unlocked)
      else s.refuse .forbidden

/-- Removes a file. One that another client has locked stays, and that is no error: the answer
says whether the file is gone. -/
def remove (s : Store) (path : String) (owner : ClientId) : Outcome Bool :=
  match s.find? path with
  | none => s.refuse .notFound
  | some f =>
    if f.allows owner then
      match s.buckets.take? path with
      | some (f, buckets) => (.ok true, { s with buckets, totals := s.totals.without f })
      | none => (.ok false, s)
    else (.ok false, s)

/-- The contents of a file; locks do not matter. -/
def read (s : Store) (path : String) : Except StoreError Bytes :=
  match s.find? path with
  | none => .error .notFound
  | some f => .ok f.contents

/-- Changes the contents of a file, then evicts until the store is within its budgets. The answer
lists the evicted files in the order of their eviction. -/
def edit (s : Store) (path : String) (owner : ClientId) (change : Bytes → Bytes) :
    Outcome (List File) :=
  match s.find? path with
  | none => s.refuse .notFound
  | some f =>
    if f.allows owner then
      let growth : Int := (change f.contents).length - f.contents.length
      let (evicted, s) := (s.modify path (File.edited change)).grow path growth
      (.ok evicted, s)
    else s.refuse .forbidden

/-- Replaces the contents of a file. -/
def replace (s : Store) (path : String) (owner : ClientId) (contents : Bytes) :
    Outcome (List File) :=
  s.edit path owner fun _ => contents

/-- Adds to the end of a file. -/
def append (s : Store) (path : String) (owner : ClientId) (contents : Bytes) :
    Outcome (List File) :=
  s.edit path owner (· ++ contents)

/-- Unlocks every file that a client holds, and says how many there were. -/
def release (s : Store) (owner : ClientId) : Nat × Store :=
  (s.files.countP (·.lockOwner = some owner),
    { s with buckets := s.buckets.map (File.releasedBy owner) })

end Store

/-- An operation by a client. -/
inductive Operation where
  | create (path : String) (owner : ClientId) (lock : Bool)
  | openFile (path : String) (owner : ClientId) (lock : Bool)
  | close (path : String) (owner : ClientId)
  | lock (path : String) (owner : ClientId)
  | unlock (path : String) (owner : ClientId)
  | remove (path : String) (owner : ClientId)
  | read (path : String)
  | replace (path : String) (owner : ClientId) (contents : Bytes)
  | append (path : String) (owner : ClientId) (contents : Bytes)
  | release (owner : ClientId)
  | stats

/-- What an operation answers. -/
inductive Answer where
  | done
  | refused (e : StoreError)
  | removed (gone : Bool)
  | contents (bytes : Bytes)
  | evicted (files : List File)
  | released (count : Nat)
  | stats (stats : Stats)

/-- The answer of a result. -/
def Answer.ofResult {α : Type} (answer : α → Answer) : Except StoreError α → Answer
  | .ok a => answer a
  | .error e => .refused e

namespace Store

/-- Performs one operation. -/
def perform (s : Store) : Operation → Answer × Store
  | .create path owner lock => (s.create path owner lock).map (.ofResult fun _ => .done) id
  | .openFile path owner lock => (s.openFile path owner lock).map (.ofResult fun _ => .done) id
  | .close path owner => (s.close path owner).map (.ofResult fun _ => .done) id
  | .lock path owner => (s.lock path owner).map (.ofResult fun _ => .done) id
  | .unlock path owner => (s.unlock path owner).map (.ofResult fun _ => .done) id
  | .remove path owner => (s.remove path owner).map (.ofResult .removed) id
  | .read path => (.ofResult .contents (s.read path), s)
  | .replace path owner contents => (s.replace path owner contents).map (.ofResult .evicted) id
  | .append path owner contents => (s.append path owner contents).map (.ofResult .evicted) id
  | .release owner => (s.release owner).map .released id
  | .stats => (.stats s.stats, s)

/-- Performs operations in turn, and collects the answers. -/
def run (s : Store) : List Operation → List Answer × Store
  | [] => ([], s)
  | op :: ops =>
    let (answer, s) := s.perform op
    let (answers, s) := s.run ops
    (answer :: answers, s)

end Store

end FileDepot
