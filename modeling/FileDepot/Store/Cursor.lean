import FileDepot.Store.Basic

/-!
# Cursors

A walk over the stored files, bucket by bucket and oldest first in each, that yields one file at a
time and may stop after a given number.
-/

namespace FileDepot

/-- A walk in progress: the bucket being read and its next cell, the buckets not yet entered, and
how many files may still be yielded, if that is bounded. -/
structure Cursor where
  bucket : Bucket := {}
  cell : Option Nat := none
  ahead : List Bucket
  remaining : Option Nat

namespace Cursor

/-- Enters buckets until one has a file to yield. -/
def seek : Bucket → Option Nat → List Bucket → Option (Bucket × Nat × List Bucket)
  | bucket, some cell, ahead => some (bucket, cell, ahead)
  | _, none, [] => none
  | _, none, bucket :: ahead => seek bucket bucket.first ahead

/-- Yields the next file, or none when the walk or its bound has come to an end. -/
def next (c : Cursor) : Option File × Cursor :=
  if c.remaining = some 0 then (none, c)
  else
    match seek c.bucket c.cell c.ahead with
    | none => (none, { c with cell := none, ahead := [] })
    | some (bucket, cell, ahead) =>
      (bucket.get? cell,
        { bucket, cell := bucket.next? cell, ahead, remaining := c.remaining.map (· - 1) })

/-- The files yielded up to the first time that none is, in at most `fuel` steps. -/
def collect : Nat → Cursor → List File × Cursor
  | 0, c => ([], c)
  | fuel + 1, c =>
    match c.next with
    | (none, c) => ([], c)
    | (some f, c) =>
      let (files, c) := collect fuel c
      (f :: files, c)

end Cursor

namespace Store

/-- A walk over at most `max` files, or over all of them if `max` is 0. -/
def cursor (s : Store) (max : Nat) : Cursor where
  ahead := s.buckets.chains.toList
  remaining := if max = 0 then none else some max

/-- The files of a whole walk and the cursor after it. A walk yields each stored file once, so one
step more than there are files ends it. -/
def walk (s : Store) (max : Nat) : List File × Cursor :=
  (s.cursor max).collect (s.buckets.size + 1)

/-- The first `max` files, or all of them if `max` is 0. -/
def list (s : Store) (max : Nat) : List File :=
  (s.walk max).1

/-- The holder of every locked file, in the order of a walk. -/
def locks (s : Store) : List (String × ClientId) :=
  (s.list 0).filterMap fun f => f.lockOwner.map (f.path, ·)

end Store

end FileDepot
