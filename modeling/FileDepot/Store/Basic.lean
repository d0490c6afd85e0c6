import FileDepot.Policy

/-!
# The store

Files under two budgets, a number of files and a number of bytes. A write or an append that goes
over a budget evicts other files until the store is within both again.
-/

namespace FileDepot

/-- Why an operation is refused. A refusal changes nothing. -/
inductive StoreError where
  | notFound
  | alreadyExists
  | alreadyOpen
  | alreadyClosed
  | alreadyLocked
  | alreadyUnlocked
  | forbidden
deriving DecidableEq, Repr

/-- The wording of a refusal. -/
def StoreError.message : StoreError → String
  | .notFound => "no such file"
  | .alreadyExists => "file already exists"
  | .alreadyOpen => "file is already open"
  | .alreadyClosed => "file is already closed"
  | .alreadyLocked => "file is already locked"
  | .alreadyUnlocked => "file is not locked"
  | .forbidden => "file is locked by another connection"

/-- Running totals of the stored files, their highest values so far, and the evictions so far.
The totals are signed: they are kept apart from the files and nothing in the type bounds them. -/
structure Totals where
  openFiles : Int := 0
  files : Int := 0
  bytes : Int := 0
  maxFilesSeen : Int := 0
  maxBytesSeen : Int := 0
  evictions : Nat := 0
deriving DecidableEq

namespace Totals

/-- Adds to the totals, then raises the highest values. -/
def add (t : Totals) (openFiles files bytes : Int) : Totals where
  openFiles := t.openFiles + openFiles
  files := t.files + files
  bytes := t.bytes + bytes
  maxFilesSeen := max t.maxFilesSeen (t.files + files)
  maxBytesSeen := max t.maxBytesSeen (t.bytes + bytes)
  evictions := t.evictions

/-- Takes a file that has left the store off the totals. -/
def without (t : Totals) (f : File) : Totals :=
  t.add (if f.isOpen then -1 else 0) (-1) (-f.size)

/-- Takes an evicted file off the totals and counts the eviction. -/
def withoutEvicted (t : Totals) (f : File) : Totals :=
  { t.without f with evictions := t.evictions + 1 }

end Totals

/-- The totals as they are reported. -/
structure Stats where
  openFiles : Nat
  files : Nat
  bytes : Nat
  maxFilesSeen : Nat
  maxBytesSeen : Nat
  evictions : Nat
deriving DecidableEq, Repr

/-- A report shows a negative total as 0. -/
def Totals.stats (t : Totals) : Stats where
  openFiles := t.openFiles.toNat
  files := t.files.toNat
  bytes := t.bytes.toNat
  maxFilesSeen := t.maxFilesSeen.toNat
  maxBytesSeen := t.maxBytesSeen.toNat
  evictions := t.evictions

/-- A budget as the totals are compared with it: a 64-bit word read as a signed number, so that
one of `2 ^ 63` or more is negative and every total is over it. -/
def signedBudget (limit : UInt64) : Int :=
  limit.toInt64.toInt

/-- Stored files, the policy that evicts them, and the budgets. -/
structure Store where
  maxFiles : UInt64
  maxBytes : UInt64
  buckets : Buckets
  chooser : Chooser
  totals : Totals := {}
  nextGeneration : Nat := 0

namespace Store

/-- A store without files. The dice serve the segmented policy. -/
def empty (maxFiles maxBytes : UInt64) (placement : Placement) (policy : Policy)
    (dice : Dice := ⟨fun _ => 0, 0⟩) : Store where
  maxFiles
  maxBytes
  buckets := .empty placement
  chooser := .start policy dice

/-- The stored files, bucket by bucket, oldest first in each. -/
def files (s : Store) : List File :=
  s.buckets.files

/-- The file stored under a path. -/
def find? (s : Store) (path : String) : Option File :=
  s.buckets.find? path

/-- The totals as they are reported. -/
def stats (s : Store) : Stats :=
  s.totals.stats

/-- Changes the file stored under a path. -/
def modify (s : Store) (path : String) (change : File → File) : Store :=
  { s with buckets := s.buckets.modify path change }

/-- Adds to the totals. -/
def count (s : Store) (openFiles files bytes : Int) : Store :=
  { s with totals := s.totals.add openFiles files bytes }

/-- Whether a total is over its budget. -/
def OverBudget (s : Store) : Prop :=
  s.totals.files > signedBudget s.maxFiles ∨ s.totals.bytes > signedBudget s.maxBytes

instance (s : Store) : Decidable s.OverBudget :=
  inferInstanceAs (Decidable (_ ∨ _))

/-- Takes one file out: the policy's choice, or the file under `protect` when that is the only
one left. The totals still count it. -/
def takeVictim (s : Store) (protect : String) : Option File × Store :=
  match s.chooser.choose s.buckets protect with
  | (some victim, chooser, buckets) => (some victim, { s with chooser, buckets })
  | (none, chooser, buckets) =>
    match buckets.take? protect with
    | some (victim, buckets) => (some victim, { s with chooser, buckets })
    | none => (none, { s with chooser, buckets })

/-- Evicts files while the store is over budget, at most `fuel` of them. -/
def evictUpTo (protect : String) : Nat → Store → List File × Store
  | 0, s => ([], s)
  | fuel + 1, s =>
    if s.OverBudget then
      match s.takeVictim protect with
      | (some victim, s) =>
        let s := { s with totals := s.totals.withoutEvicted victim }
        let (victims, s) := evictUpTo protect fuel s
        (victim :: victims, s)
      | (none, s) => ([], s)
    else ([], s)

/-- Evicts files until the store is within its budgets or empty. Each round takes one file out, so
one more round than there are files is never exceeded. -/
def evict (s : Store) (protect : String) : List File × Store :=
  evictUpTo protect (s.buckets.size + 1) s

/-- Accounts for the growth of the file under `protect`, then evicts. -/
def grow (s : Store) (protect : String) (growth : Int) : List File × Store :=
  (s.count 0 0 growth).evict protect

end Store

end FileDepot
