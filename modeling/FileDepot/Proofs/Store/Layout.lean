import FileDepot.Proofs.Store.Run

/-! # The layout of a store

Paths tell the stored files apart and place them in the buckets; generations put them in order,
within each bucket and in the queue of the first-in-first-out policy. Files that go by other ways
than the front of the queue leave their tickets in it. Generations are never issued twice, so such
a ticket is no file's for good, whatever is created under its path later. -/

namespace FileDepot

/-- A queue in the order of age, its generations below `next`, that lists each file once: the
file's ticket stands in one place, and in the places of no file stand tickets of no file. -/
structure ListsOnce (queue : List Ticket) (files : List File) (next : Nat) : Prop where
  increasing : queue.Pairwise (·.generation < ·.generation)
  fresh : ∀ t ∈ queue, t.generation < next
  once : ∀ f ∈ files, ∀ i, queue[i]? = some f.ticket ↔ i = queue.idxOf f.ticket
  stale : ∀ i t, queue[i]? = some t → (∀ f ∈ files, i ≠ queue.idxOf f.ticket) →
    ∀ f ∈ files, f.ticket ≠ t

namespace Queued

variable {queue : List Ticket} {fs : List File} {next : Nat}

theorem nodup (h : Queued queue fs next) : queue.Nodup :=
  h.increasing.imp fun hlt he => Nat.ne_of_lt hlt (congrArg Ticket.generation he)

theorem ticket_mem (h : Queued queue fs next) {f : File} (hf : f ∈ fs) : f.ticket ∈ queue :=
  h.sublist.subset (List.mem_map_of_mem hf)

/-- A ticket stands in one place only, as no two have one generation. -/
theorem getElem?_eq_some_iff (h : Queued queue fs next) {f : File} (hf : f ∈ fs) (i : Nat) :
    queue[i]? = some f.ticket ↔ i = queue.idxOf f.ticket := by
  constructor
  · intro hi
    obtain ⟨hlt, he⟩ := List.getElem?_eq_some_iff.mp hi
    rw [← he, h.nodup.idxOf_getElem i hlt]
  · rintro rfl
    have hlt := List.idxOf_lt_length_of_mem (h.ticket_mem hf)
    rw [List.getElem?_eq_getElem hlt, List.getElem_idxOf hlt]

theorem listsOnce (h : Queued queue fs next) {files : List File} (hp : files.Perm fs) :
    ListsOnce queue files next where
  increasing := h.increasing
  fresh := h.fresh
  once f hf := h.getElem?_eq_some_iff (hp.mem_iff.mp hf)
  stale i t ht hne f hf he := by
    have hi : queue[i]? = some f.ticket := ht.trans (congrArg some he.symm)
    exact hne f hf ((h.getElem?_eq_some_iff (hp.mem_iff.mp hf) i).mp hi)

end Queued

namespace Store

/-- How the files lie in a store: none under the path of another, each in the bucket of its path
and after the older ones there, and under first in, first out each once in the queue. -/
structure LaidOut (s : Store) : Prop where
  nodup : (s.files.map File.path).Nodup
  placed : ∀ i, ∀ f ∈ (s.buckets.chains.get i).toList, s.buckets.placement.place f.path = i
  increasing : ∀ i, (s.buckets.chains.get i).toList.Pairwise (·.generation < ·.generation)
  fresh : ∀ i, ∀ f ∈ (s.buckets.chains.get i).toList, f.generation < s.nextGeneration
  queued : s.chooser.policy = .fifo →
    ∃ queue, s.chooser = .fifo queue ∧ ListsOnce queue s.files s.nextGeneration

/-- The invariant of every operation gives the layout. -/
theorem Keeps.laidOut {s : Store} {fs : List File} (h : s.Keeps fs) : s.LaidOut where
  nodup := (h.files_perm.map File.path).nodup_iff.mpr h.nodup
  placed i f hf := by
    rw [h.holds i] at hf
    exact (s.buckets.placement.mem_share.mp hf).2
  increasing i := by
    rw [h.holds i]
    exact h.increasing.sublist List.filter_sublist
  fresh i f hf := by
    rw [h.holds i] at hf
    exact h.fresh f (s.buckets.placement.mem_share.mp hf).1
  queued hp := by
    have hc := h.covers
    cases hs : s.chooser with
    | segmented dice => simp [hs, Chooser.policy] at hp
    | fifo queue =>
        rw [hs] at hc
        exact ⟨queue, rfl, Queued.listsOnce hc h.files_perm⟩

/-- Whatever the policy, its dice, the buckets and the limits: every run of operations leaves the
files laid out by their paths and generations. -/
theorem run_laidOut (maxFiles maxBytes : UInt64) (placement : Placement) (policy : Policy)
    (dice : Dice) (ops : List Operation) :
    let s := ((empty maxFiles maxBytes placement policy dice).run ops).2
    s.buckets.placement = placement ∧ s.chooser.policy = policy ∧ s.LaidOut := by
  intro s
  have he := tracks_empty maxFiles maxBytes placement policy dice
  obtain ⟨fs, hs⟩ := he.run ops
  have hss := he.sameSettings_run ops
  refine ⟨hss.placement_eq, hss.policy_eq.trans ?_, hs.toKeeps.laidOut⟩
  cases policy <;> rfl

/-- A path created anew has a second ticket, and the first one is stale. -/
example :
    let ops : List Operation := [.create "a" ⟨1⟩ false, .remove "a" ⟨1⟩, .create "a" ⟨2⟩ false]
    let s := ((empty 3 9 ⟨2, fun path => Fin.ofNat 2 path.length⟩ .fifo).run ops).2
    s.chooser = .fifo [⟨"a", 0⟩, ⟨"a", 1⟩] ∧ s.files.map File.ticket = [⟨"a", 1⟩] := by
  constructor <;> with_unfolding_all rfl

end Store

end FileDepot
