import FileDepot.Chain
import FileDepot.File
import FileDepot.Placement

/-!
# Buckets

The stored files, spread over a fixed number of buckets. A path belongs to one bucket, and a
bucket keeps its files in the order of their creation.
-/

namespace FileDepot

/-- Files in the order of their creation. -/
abbrev Bucket := Chain File

/-- The cell of a path's oldest file. -/
def Bucket.find? (b : Bucket) (path : String) : Option Nat :=
  b.findOldest? (·.path = path)

/-- The room that an empty bucket takes, in bytes. -/
def Bucket.room : Nat := 80

/-- Whether one buffer can hold all the buckets. -/
def Placement.fits (p : Placement) : Bool :=
  Bucket.room * p.count ≤ Bytes.maxSize

/-- One bucket for each number of the placement. -/
structure Buckets where
  placement : Placement
  chains : Vector Bucket placement.count

namespace Placement

theorem count_pos (p : Placement) : 0 < p.count :=
  Nat.zero_lt_of_lt (p.place "").isLt

/-- The bucket that any number stands for, counting around. -/
def wrap (p : Placement) (n : Nat) : Fin p.count :=
  ⟨n % p.count, Nat.mod_lt _ p.count_pos⟩

end Placement

namespace Buckets

/-- Empty buckets. -/
def empty (placement : Placement) : Buckets :=
  ⟨placement, Vector.replicate placement.count {}⟩

/-- The stored files, bucket by bucket, oldest first in each. -/
def files (bs : Buckets) : List File :=
  bs.chains.toList.flatMap Chain.toList

/-- The number of stored files. -/
def size (bs : Buckets) : Nat :=
  bs.files.length

/-- The only bucket that may hold a path. -/
def bucketOf (bs : Buckets) (path : String) : Bucket :=
  bs.chains.get (bs.placement.place path)

/-- Replaces a bucket. -/
def setBucket (bs : Buckets) (i : Fin bs.placement.count) (b : Bucket) : Buckets :=
  { bs with chains := bs.chains.set i b }

/-- The oldest file stored under a path. -/
def find? (bs : Buckets) (path : String) : Option File :=
  (Bucket.find? (bs.bucketOf path) path).bind (bs.bucketOf path).get?

/-- Adds a file as the newest one of its bucket. -/
def push (bs : Buckets) (f : File) : Buckets :=
  bs.setBucket (bs.placement.place f.path) ((bs.bucketOf f.path).push f)

/-- Changes the oldest file stored under a path. -/
def modify (bs : Buckets) (path : String) (change : File → File) : Buckets :=
  match Bucket.find? (bs.bucketOf path) path with
  | none => bs
  | some cell => bs.setBucket (bs.placement.place path) ((bs.bucketOf path).modify cell change)

/-- Changes every file. -/
def map (bs : Buckets) (change : File → File) : Buckets :=
  { bs with chains := bs.chains.map (·.map change) }

/-- Takes a file out of a bucket. -/
def takeCell? (bs : Buckets) (i : Fin bs.placement.count) (cell : Nat) : Option (File × Buckets) :=
  ((bs.chains.get i).get? cell).map fun f => (f, bs.setBucket i ((bs.chains.get i).detach cell))

/-- Takes out the oldest file stored under a path. -/
def take? (bs : Buckets) (path : String) : Option (File × Buckets) :=
  (Bucket.find? (bs.bucketOf path) path).bind (bs.takeCell? (bs.placement.place path))

/-- Takes the newest file out of a bucket that is not stored under `protect`. -/
def takeNewest? (bs : Buckets) (protect : String) (i : Fin bs.placement.count) :
    Option (File × Buckets) :=
  ((bs.chains.get i).findNewest? (·.path ≠ protect)).bind (bs.takeCell? i)

end Buckets

end FileDepot
