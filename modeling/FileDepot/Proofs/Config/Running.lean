import FileDepot.Proofs.Chain.Slab
import FileDepot.Proofs.Config.Bounds
import FileDepot.Proofs.Server.Replay
import FileDepot.Proofs.Server.Rounds
import FileDepot.Proofs.Store.Apart

/-! # Running an accepted configuration

The checks of a configuration are far from what relies on them. Whatever is accepted, a server that
runs with it compares its totals with the budgets that were given, finds a queue for every message
and a bucket for every path, and asks for no cell that is not occupied. -/

namespace FileDepot

/-! ## The store of a server -/

/-- A store that a journal leads to tracks some files still, and has the settings it began with. -/
theorem Replays.tracks {store t : Store} {journal : List Event} (h : Replays store journal t)
    {fs : List File} (hs : store.Tracks fs) : (∃ gs, t.Tracks gs) ∧ store.SameSettings t := by
  induction h with
  | nil => exact ⟨⟨fs, hs⟩, .refl store⟩
  | accepted _ _ _ ih | posted _ _ _ ih | reaped _ _ ih | rejected _ _ _ ih => exact ih
  | @applied journal t m payload request _ _ _ ih =>
      obtain ⟨⟨gs, ht⟩, hset⟩ := ih
      obtain ⟨gs', ht', -⟩ := ht.respond m.sender request
      exact ⟨⟨gs', ht'⟩, hset.trans (ht.sameSettings_respond m.sender request)⟩
  | released c _ ih =>
      obtain ⟨⟨gs, ht⟩, hset⟩ := ih
      exact ⟨⟨_, ht.tracks_release c⟩, hset.trans ⟨rfl, rfl, rfl, rfl⟩⟩

/-! ## The cells of a bucket -/

/-- Every access to the cells of a bucket is to an occupied one: the walks from either end, the
links that a push or a detachment changes, and the cells that a search looks at and answers. -/
structure Bucket.Checked (b : Bucket) : Prop where
  represents : b.strand.Represents (Cells.slab _) b.entries
  push : ∀ f, b.strand.push? (Cells.slab _) f = some (b.cells.vacancy, (b.push f).strand)
  detach : ∀ i f, b.get? i = some f →
    b.strand.detach? (Cells.slab _) i = some (f, (b.detach i).strand)
  finds : ∀ p, b.strand.Finds (Cells.slab _) p (b.findOldest? p)
  found : ∀ p i, b.findOldest? p = some i ∨ b.findNewest? p = some i → ∃ f, b.get? i = some f

theorem Bucket.checked (b : Bucket) : b.Checked where
  represents := b.shows_strand.represents
  push := b.push?_strand
  detach _ _ := Chain.detach?_strand
  finds := b.finds_strand
  found p i h := by
    rcases h with h | h
    · obtain ⟨_, f, _, hs, -, -⟩ := Chain.findOldest?_eq_some h
      exact ⟨f, hs.get?_eq⟩
    · obtain ⟨_, f, _, hs, -, -⟩ := Chain.findNewest?_eq_some h
      exact ⟨f, hs.get?_eq⟩

/-! ## The worker for a message -/

namespace Server

theorem workerFor_lt (s : Server) (h : 0 < s.workers.length) (id : ClientId) :
    (s.workerFor id).1 < s.workers.length := by
  unfold workerFor
  split <;> exact Nat.mod_lt _ h

end Server

namespace Config

variable {c : Config}

/-! ## The number of buckets -/

/-- What a server that runs with a configuration relies on. -/
structure Runs (c : Config) (s : Server) : Prop where
  /-- The budgets are those given, and the totals are compared with them as they are. -/
  maxFiles_eq : s.store.maxFiles.toNat = c.maxFiles
  maxBytes_eq : s.store.maxBytes.toNat = c.maxStorage
  overBudget_iff : s.store.OverBudget ↔
    (c.maxFiles : Int) < s.store.totals.files ∨ (c.maxStorage : Int) < s.store.totals.bytes
  /-- The worker picked for a message has a queue. -/
  length_workers : s.workers.length = c.numWorkers
  workerFor_lt : ∀ id, (s.workerFor id).1 < s.workers.length
  sticky : c.selection = .sticky → ∀ id, (s.workerFor id).1 = id.number % c.numWorkers
  posted_lt : ∀ p ∈ s.ledger.posted, p.1 < s.workers.length
  /-- Every path has a bucket, and so has every number that the dice throw. -/
  length_buckets : s.store.buckets.chains.toList.length = c.bucketCount
  place_eq : ∀ path, (s.store.buckets.placement.place path : Nat) =
    Placement.storeHash.bucket path c.bucketCount
  bucket_lt : ∀ path, Placement.storeHash.bucket path c.bucketCount < c.bucketCount
  wrap_eq : ∀ n, (s.store.buckets.placement.wrap n : Nat) = n % c.bucketCount
  /-- A message that is not over the limit fits into a buffer, and the receiver does not fall. -/
  maxMessage_eq : s.settings.maxMessage = c.maxMessageSize
  maxMessage_le : s.settings.maxMessage ≤ Bytes.maxSize
  standing : s.fallen = none
  /-- No bucket is asked for a cell that is not occupied. -/
  checked : ∀ b ∈ s.store.buckets.chains.toList, Bucket.Checked b

/-- The scene that opens with a configuration. The server's dice need not be the store's. -/
def scene (c : Config) (dice dice' : Dice) : Scene :=
  ⟨{ c.server dice with dice := dice' }, []⟩

/-- In every run the settings are those that were given. -/
theorem sameSettings_run (c : Config) (dice dice' : Dice) (actions : List Action) :
    (c.server dice).store.SameSettings ((c.scene dice dice').run actions).server.store := by
  have hreplays := Scene.accountsFor_run (r := c.scene dice dice') .nil actions
  exact (hreplays.tracks (Store.tracks_empty ..)).2

end Config

end FileDepot
