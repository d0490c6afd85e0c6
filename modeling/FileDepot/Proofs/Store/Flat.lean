import Mathlib.Algebra.Ring.Nat
import FileDepot.Store.Operation

/-! # A flat store

One list of records in the order of creation, without buckets, tickets or generations. It says
directly what a first-in-first-out store answers: the totals are counted from the list, and a
write drops the oldest other records while the list is over a budget. -/

namespace FileDepot

/-- What there is to see of a file. -/
structure Record where
  path : String
  contents : Bytes
  isOpen : Bool
  lockOwner : Option ClientId
deriving DecidableEq

namespace Record

def size (r : Record) : Nat :=
  r.contents.length

def allows (r : Record) (client : ClientId) : Bool :=
  r.lockOwner = none ∨ r.lockOwner = some client

end Record

/-- What a client sees of an answer. -/
inductive Seen where
  | done
  | refused (e : StoreError)
  | removed (gone : Bool)
  | contents (bytes : Bytes)
  | evicted (records : List Record)
  | released (count : Nat)
  | stats (stats : Stats)

/-- Records in the order of their creation, and the history that is reported of them. -/
structure FlatStore where
  maxFiles : Nat
  maxBytes : Nat
  records : List Record := []
  maxFilesSeen : Nat := 0
  maxBytesSeen : Nat := 0
  evictions : Nat := 0

namespace FlatStore

/-- The number of bytes in some records. -/
def bytes (records : List Record) : Nat :=
  (records.map Record.size).sum

/-- The records of all paths but one. -/
def without (path : String) (records : List Record) : List Record :=
  records.filter (·.path ≠ path)

/-- The record to drop: the oldest one of another path, or the written one when it is the only one
left. -/
def next? (path : String) (records : List Record) : Option Record :=
  (records.find? (·.path ≠ path)).or (records.find? (·.path = path))

theorem length_without_lt {path : String} {records : List Record} {r : Record}
    (h : next? path records = some r) : (without r.path records).length < records.length := by
  have hm : r ∈ records := by
    rcases Option.or_eq_some_iff.mp h with h | ⟨-, h⟩
    · exact List.mem_of_find?_eq_some h
    · exact List.mem_of_find?_eq_some h
  exact List.length_filter_lt_length_iff_exists.mpr ⟨r, hm, by simp⟩

/-- Drops records while there are too many of them or of their bytes. The answer has the dropped
ones in their order and those left. -/
def shrink (maxFiles maxBytes : Nat) (path : String) (records : List Record) :
    List Record × List Record :=
  if maxFiles < records.length ∨ maxBytes < bytes records then
    match h : next? path records with
    | none => ([], records)
    | some r =>
      have := length_without_lt h
      let (dropped, left) := shrink maxFiles maxBytes path (without r.path records)
      (r :: dropped, left)
  else ([], records)
termination_by records.length

/-- The store with other records, which are noted in the history. -/
def update (s : FlatStore) (records : List Record) : FlatStore :=
  { s with
    records
    maxFilesSeen := max s.maxFilesSeen records.length
    maxBytesSeen := max s.maxBytesSeen (bytes records) }

/-- The store with one path's record changed. -/
def change (s : FlatStore) (path : String) (f : Record → Record) : FlatStore :=
  s.update (s.records.map fun r => if r.path = path then f r else r)

/-- The counters, from the list and its history. -/
def stats (s : FlatStore) : Stats where
  openFiles := s.records.countP (·.isOpen)
  files := s.records.length
  bytes := bytes s.records
  maxFilesSeen := s.maxFilesSeen
  maxBytesSeen := s.maxBytesSeen
  evictions := s.evictions

/-- Acts on the record of a path, if there is one. -/
def onPath (s : FlatStore) (path : String) (act : Record → Seen × FlatStore) : Seen × FlatStore :=
  match s.records.find? (·.path = path) with
  | none => (.refused .notFound, s)
  | some r => act r

/-- Changes the contents of a record, and then drops records until the budgets are met. -/
def edit (s : FlatStore) (path : String) (owner : ClientId) (f : Bytes → Bytes) : Seen × FlatStore :=
  s.onPath path fun r =>
    if r.allows owner then
      let s := s.change path fun r => { r with contents := f r.contents }
      let (dropped, left) := shrink s.maxFiles s.maxBytes path s.records
      (.evicted dropped, { s with records := left, evictions := s.evictions + dropped.length })
    else (.refused .forbidden, s)

/-- Performs one operation. -/
def perform (s : FlatStore) : Operation → Seen × FlatStore
  | .create path owner lock =>
    if s.records.any (·.path = path) then (.refused .alreadyExists, s)
    else (.done, s.update (s.records ++ [⟨path, [], true, if lock then some owner else none⟩]))
  | .openFile path owner lock =>
    s.onPath path fun r =>
      if r.isOpen then (.refused .alreadyOpen, s)
      else if r.allows owner then
        (.done, s.change path fun r =>
          { r with isOpen := true, lockOwner := if lock then some owner else r.lockOwner })
      else (.refused .forbidden, s)
  | .close path owner =>
    s.onPath path fun r =>
      if !r.isOpen then (.refused .alreadyClosed, s)
      else if r.allows owner then (.done, s.change path ({ · with isOpen := false }))
      else (.refused .forbidden, s)
  | .lock path owner =>
    s.onPath path fun r =>
      if r.lockOwner = none then (.done, s.change path ({ · with lockOwner := some owner }))
      else (.refused .alreadyLocked, s)
  | .unlock path owner =>
    s.onPath path fun r =>
      if r.lockOwner = none then (.refused .alreadyUnlocked, s)
      else if r.lockOwner = some owner then (.done, s.change path ({ · with lockOwner := none }))
      else (.refused .forbidden, s)
  | .remove path owner =>
    s.onPath path fun r =>
      if r.allows owner then (.removed true, s.update (without path s.records))
      else (.removed false, s)
  | .read path => s.onPath path fun r => (.contents r.contents, s)
  | .replace path owner contents => s.edit path owner fun _ => contents
  | .append path owner contents => s.edit path owner (· ++ contents)
  | .release owner =>
    (.released (s.records.countP (·.lockOwner = some owner)),
      s.update (s.records.map fun r =>
        if r.lockOwner = some owner then { r with lockOwner := none } else r))
  | .stats => (.stats s.stats, s)

/-- Performs operations in turn, and collects the answers. -/
def run (s : FlatStore) : List Operation → List Seen × FlatStore
  | [] => ([], s)
  | op :: ops =>
    let (answer, s) := s.perform op
    let (answers, s) := s.run ops
    (answer :: answers, s)

/-- What a walk over all records yields when the paths are spread over buckets: bucket by bucket,
oldest first in each. -/
def listing (s : FlatStore) (p : Placement) : List Record :=
  (List.finRange p.count).flatMap fun i => s.records.filter (p.place ·.path = i)

end FlatStore

end FileDepot
