import FileDepot.Hash.Sha256
import FileDepot.Hash.Xxh3

/-!
# Placement

Which bucket a path belongs to. A path's hash is remixed by a keyed multiplication and addition,
and the high bits of the result pick the bucket.
-/

namespace FileDepot

/-- A keyed remixing of hashes: an odd multiplier and an addend. -/
structure PathHash where
  multiplier : UInt64
  addend : UInt64

namespace PathHash

/-- Maps `[0, 2 ^ 64)` linearly onto `[0, count)`, and to 0 where `count` is 0. -/
def scale (x : UInt64) (count : Nat) : Nat :=
  count * x.toNat / UInt64.size

/-- The key drawn from the digest of a seed. -/
def ofSeed (seed : Bytes) : PathHash :=
  let digest := Sha256.hash seed
  { multiplier := UInt64.ofNat (Bytes.toNatLE (digest.take 8)) ||| 1
    addend := UInt64.ofNat (Bytes.toNatLE ((digest.drop 8).take 8)) }

/-- Remixes a hash; a permutation of the words, since the multiplier is odd. -/
def remix (k : PathHash) (h : UInt64) : UInt64 :=
  h * k.multiplier + k.addend

/-- The bucket of a path among `count`. -/
def bucket (k : PathHash) (path : String) (count : Nat) : Nat :=
  scale (k.remix (Xxh3.hash (Bytes.ofText path))) count

theorem scale_lt {count : Nat} (h : 0 < count) (x : UInt64) : scale x count < count := by
  unfold scale
  rw [Nat.div_lt_iff_lt_mul (by decide), Nat.mul_lt_mul_left h]
  exact x.toNat_lt

theorem bucket_lt (k : PathHash) (path : String) {count : Nat} (h : 0 < count) :
    k.bucket path count < count :=
  scale_lt h _

end PathHash

/-- A number of buckets and the bucket of every path. -/
structure Placement where
  count : Nat
  place : String → Fin count

namespace Placement

/-- The hash that places the paths of every store. -/
def storeHash : PathHash :=
  .ofSeed (Bytes.ofText "sol-storage bucket hash")

/-- The placement of a store with `count` buckets; 0 counts as 1. -/
def hashed (count : Nat) : Placement where
  count := max count 1
  place path := ⟨storeHash.bucket path (max count 1), PathHash.bucket_lt _ _ (by omega)⟩

end Placement

end FileDepot
