import FileDepot.Proofs.Store.Layout
import FileDepot.Proofs.Store.Walk
import FileDepot.Response

/-! # Visiting the files

A cursor comes by every stored file once, in the order of the buckets and of the age in each, and a
listing sends the files that it comes by. -/

namespace FileDepot

/-- The written form of a listing is that of its files one after the other, and a length of 0. -/
theorem Response.encode_listing (files : List File) :
    (Response.listing (files.map File.sent)).encode =
      (files.map fun f => f.sent.pieces.flatten).flatten ++ Bytes.word 0 := by
  rw [encode, pieces, List.flatten_append, List.flatten_singleton, List.flatMap, List.map_map,
    List.flatten_flatten, List.map_map]
  rfl

namespace Store

variable {s : Store} {fs : List File}

/-- The stored files are those that are found under their paths. -/
theorem Tracks.find?_eq_some_iff (h : s.Tracks fs) {path : String} {f : File} :
    s.find? path = some f ↔ f ∈ s.files ∧ f.path = path := by
  rw [h.files_perm.mem_iff]
  constructor
  · exact h.mem_of_find?
  · rintro ⟨hf, rfl⟩
    exact h.find?_path hf

/-- How many files a cursor comes by that may stop after `max` of them, or after none if `max`
is 0. -/
def visits (s : Store) (max : Nat) : Nat :=
  if max = 0 then s.files.length else min max s.files.length

theorem take_visits (s : Store) (max : Nat) :
    s.files.take (s.visits max) = if max = 0 then s.files else s.files.take max := by
  unfold visits
  split
  · exact List.take_length
  · exact (List.take_eq_take_min ..).symm

/-- After every run and for every bound: step by step a cursor yields the stored files, bucket by
bucket and oldest first in each, each once, and as many as it may; from then on it yields none.
A listing sends the blocks of the files that a cursor with its count yields, which are the first
ones of the blocks that are sent of all files, and leaves the store as it was. -/
theorem cursor_visits_each_once (maxFiles maxBytes : UInt64) (placement : Placement)
    (policy : Policy) (dice : Dice) (ops : List Operation) :
    let s := ((empty maxFiles maxBytes placement policy dice).run ops).2
    let blocks := s.files.map fun f => f.sent.pieces.flatten
    (∀ max k, ((s.cursor max).after k).next.1 =
      (if max = 0 then s.files else s.files.take max)[k]?) ∧
    s.files = s.buckets.chains.toList.flatMap Chain.toList ∧
    (∀ b ∈ s.buckets.chains.toList, b.toList.Pairwise (·.generation < ·.generation)) ∧
    (s.files.map File.path).Nodup ∧
    (∀ path f, s.find? path = some f ↔ f ∈ s.files ∧ f.path = path) ∧
    ∀ owner (count : UInt64),
      let listing := s.respond owner (.readN count)
      listing.1.encode = (blocks.take (s.visits count.toNat)).flatten ++ Bytes.word 0 ∧
      listing.2 = s := by
  intro s blocks
  obtain ⟨fs, hs⟩ := (tracks_empty maxFiles maxBytes placement policy dice).run ops
  have hl := hs.toKeeps.laidOut
  refine ⟨fun max => (s.due_cursor max).next_after, rfl, ?_, hl.nodup,
    fun path f => hs.find?_eq_some_iff, fun owner count => ⟨?_, rfl⟩⟩
  · intro b hb
    rw [Buckets.chains_toList] at hb
    obtain ⟨i, -, rfl⟩ := List.mem_map.mp hb
    exact hl.increasing i
  · have hlist : s.list count.toNat = s.files.take (s.visits count.toNat) := by
      rw [list_eq, take_visits]
    calc (s.respond owner (.readN count)).1.encode
        = (Response.listing ((s.list count.toNat).map File.sent)).encode := rfl
      _ = _ := by rw [Response.encode_listing, hlist, List.map_take]

end Store

end FileDepot
