import FileDepot.Proofs.Store.Effect
import FileDepot.Proofs.Store.Flat
import FileDepot.Proofs.Store.Walk

/-! # A first-in-first-out store answers as a flat one

The list that a store tracks is, without the generations, the list of a flat store's records. One
operation keeps the two alike and gives the same answer, and so does every run. -/

namespace FileDepot

/-- What there is to see of a file. -/
def File.record (f : File) : Record :=
  ⟨f.path, f.contents, f.isOpen, f.lockOwner⟩

@[simp] theorem File.path_record (f : File) : f.record.path = f.path := rfl

@[simp] theorem File.isOpen_record (f : File) : f.record.isOpen = f.isOpen := rfl

@[simp] theorem File.lockOwner_record (f : File) : f.record.lockOwner = f.lockOwner := rfl

/-- What a client sees of an answer. -/
def Answer.seen : Answer → Seen
  | .done => .done
  | .refused e => .refused e
  | .removed gone => .removed gone
  | .contents bytes => .contents bytes
  | .evicted files => .evicted (files.map File.record)
  | .released count => .released count
  | .stats st => .stats st

/-! ## Records of files -/

theorem bytes_map_record (fs : List File) : FlatStore.bytes (fs.map File.record) = bytesOf fs := by
  rw [FlatStore.bytes, List.map_map]
  rfl

theorem allows_record (f : File) (owner : ClientId) : f.record.allows owner = f.allows owner := by
  cases hl : f.lockOwner <;> simp [Record.allows, File.allows, hl]

theorem without_map_record (path : String) (fs : List File) :
    FlatStore.without path (fs.map File.record) =
      (fs.filter (·.path ≠ path)).map File.record :=
  List.filter_map

theorem map_changedAt_record {path : String} {change : File → File} {f : Record → Record}
    (hc : ∀ g, (change g).record = f g.record) (fs : List File) :
    ((fs.map File.record).map fun r => if r.path = path then f r else r) =
      (fs.map (File.changedAt path change)).map File.record := by
  rw [List.map_map, List.map_map]
  apply List.map_congr_left
  intro g _
  by_cases hp : g.path = path
  · simp [File.changedAt_of_eq hp, hp, hc]
  · simp [File.changedAt_of_ne hp, hp]

theorem find?_map_record (path : String) (fs : List File) :
    (fs.map File.record).find? (·.path = path) =
      (fs.find? (·.path = path)).map File.record :=
  List.find?_map ..

theorem find?_record_of_mem {fs : List File} (hn : (fs.map File.path).Nodup) {f : File}
    (hf : f ∈ fs) : (fs.map File.record).find? (·.path = f.path) = some f.record := by
  rw [find?_map_record, File.find?_path_eq_some hn hf, Option.map_some]

theorem find?_record_eq_none {fs : List File} {path : String} (h : ∀ f ∈ fs, f.path ≠ path) :
    (fs.map File.record).find? (·.path = path) = none := by
  have hn : fs.find? (·.path = path) = none :=
    List.find?_eq_none.mpr fun f hf => by simpa using h f hf
  rw [find?_map_record, hn, Option.map_none]

/-! ## Dropping and evicting -/

theorem next?_map_record (path : String) (fs : List File) :
    FlatStore.next? path (fs.map File.record) = (oldestVictim? path fs).map File.record := by
  have hne : (fs.map File.record).find? (·.path ≠ path) =
      (fs.find? (·.path ≠ path)).map File.record := List.find?_map ..
  rw [FlatStore.next?, oldestVictim?, hne]
  cases hf : fs.find? (·.path ≠ path) with
  | some f => rfl
  | none =>
      cases fs with
      | nil => rfl
      | cons f fs =>
          have hp : f.path = path := by simpa using List.find?_eq_none.mp hf f (by simp)
          simp [hp]

/-- The rules of eviction and the flat store's recursion agree step by step. -/
theorem shrink_of_evicts {maxFiles maxBytes : UInt64} (hf : maxFiles.toNat < 2 ^ 63)
    (hb : maxBytes.toNat < 2 ^ 63) {path : String} {fs victims left : List File}
    (h : Evicts maxFiles maxBytes .fifo path fs victims left) :
    FlatStore.shrink maxFiles.toNat maxBytes.toNat path (fs.map File.record) =
      (victims.map File.record, left.map File.record) := by
  have hover : ∀ fs : List File, Exceeds maxFiles maxBytes fs ↔
      maxFiles.toNat < (fs.map File.record).length ∨
        maxBytes.toNat < FlatStore.bytes (fs.map File.record) := by
    intro fs
    rw [exceeds_iff hf hb, List.length_map, bytes_map_record]
  induction h with
  | within hx =>
      rw [FlatStore.shrink, if_neg (mt (hover _).mpr hx)]
      rfl
  -- No budget is over without files.
  | exhausted hx => simp [exceeds_iff hf hb, bytesOf] at hx
  | @evict fs f victims left hx hp _ ih =>
      have hv : FlatStore.next? path (fs.map File.record) = some f.record := by
        have hp : oldestVictim? path fs = some f := hp
        rw [next?_map_record, hp, Option.map_some]
      rw [FlatStore.shrink, if_pos ((hover _).mp hx)]
      split
      · rename_i hn
        simp [hv] at hn
      · rename_i r hr
        obtain rfl : f.record = r := Option.some.inj (hv.symm.trans hr)
        simp only [File.path_record, without_map_record, ih]
        rfl

/-! ## One operation -/

/-- A store and a flat store that are alike: the tracked list without generations is the list of
records, and budgets and history agree. -/
structure Mirrors (placement : Placement) (fs : List File) (s : Store) (flat : FlatStore) : Prop where
  tracks : s.Tracks fs
  placement_eq : s.buckets.placement = placement
  policy_eq : s.chooser.policy = .fifo
  maxFiles_lt : s.maxFiles.toNat < 2 ^ 63
  maxBytes_lt : s.maxBytes.toNat < 2 ^ 63
  maxFiles_eq : flat.maxFiles = s.maxFiles.toNat
  maxBytes_eq : flat.maxBytes = s.maxBytes.toNat
  records_eq : flat.records = fs.map File.record
  maxFilesSeen_eq : s.totals.maxFilesSeen = flat.maxFilesSeen
  maxBytesSeen_eq : s.totals.maxBytesSeen = flat.maxBytesSeen
  evictions_eq : s.totals.evictions = flat.evictions

/-- The flat store after an effect: what was left, and the list at its largest in the history. -/
def FlatStore.after (flat : FlatStore) (answer : Answer) (peak gs : List File) : FlatStore :=
  { flat with
    records := gs.map File.record
    maxFilesSeen := max flat.maxFilesSeen peak.length
    maxBytesSeen := max flat.maxBytesSeen (bytesOf peak)
    evictions := flat.evictions + answer.victims.length }

namespace Mirrors

variable {placement : Placement} {fs : List File} {s : Store} {flat : FlatStore}

theorem length_le (h : Mirrors placement fs s flat) : fs.length ≤ flat.maxFilesSeen := by
  have hl := h.tracks.counts.files_le
  rw [h.tracks.counts.files_eq, h.maxFilesSeen_eq] at hl
  omega

theorem bytesOf_le (h : Mirrors placement fs s flat) : bytesOf fs ≤ flat.maxBytesSeen := by
  have hl := h.tracks.counts.bytes_le
  rw [h.tracks.counts.bytes_eq, h.maxBytesSeen_eq] at hl
  omega

/-- A mirrored list is in the history already. -/
theorem after_same (h : Mirrors placement fs s flat) {answer : Answer} (hv : answer.victims = []) :
    flat.after answer fs fs = flat := by
  rw [FlatStore.after, Nat.max_eq_left h.length_le, Nat.max_eq_left h.bytesOf_le, ← h.records_eq, hv]
  rfl

theorem stats_eq (h : Mirrors placement fs s flat) : s.stats = flat.stats := by
  have hc := h.tracks.counts
  have ho : (fs.map File.record).countP (·.isOpen) = fs.countP (·.isOpen) := by
    rw [List.countP_map]
    rfl
  simp only [Store.stats, Totals.stats, FlatStore.stats, hc.openFiles_eq, hc.files_eq, hc.bytes_eq,
    h.maxFilesSeen_eq, h.maxBytesSeen_eq, h.evictions_eq, h.records_eq, ho, List.length_map,
    bytes_map_record, Int.toNat_natCast]

theorem onPath_of_mem (h : Mirrors placement fs s flat) {f : File} (hf : f ∈ fs)
    (act : Record → Seen × FlatStore) : flat.onPath f.path act = act f.record := by
  rw [FlatStore.onPath, h.records_eq, find?_record_of_mem h.tracks.nodup hf]

theorem onPath_of_missing (h : Mirrors placement fs s flat) {path : String} (hf : ∀ f ∈ fs, f.path ≠ path)
    (act : Record → Seen × FlatStore) : flat.onPath path act = (.refused .notFound, flat) := by
  rw [FlatStore.onPath, h.records_eq, find?_record_eq_none hf]

theorem change_eq (h : Mirrors placement fs s flat) (path : String) (change : File → File)
    {f : Record → Record} (hc : ∀ g, (change g).record = f g.record) (answer : Answer)
    (hv : answer.victims = []) :
    flat.change path f = flat.after answer (fs.map (File.changedAt path change))
      (fs.map (File.changedAt path change)) := by
  rw [FlatStore.change, FlatStore.update, FlatStore.after, h.records_eq, map_changedAt_record hc,
    List.length_map, bytes_map_record, hv]
  rfl

theorem edit_eq (h : Mirrors placement fs s flat) {f : File} (hf : f ∈ fs) {owner : ClientId}
    (ha : f.allows owner = true) (change : Bytes → Bytes) {victims left : List File}
    (he : Evicts s.maxFiles s.maxBytes s.chooser.policy f.path
      (fs.map (File.changedAt f.path (File.edited change))) victims left) :
    flat.edit f.path owner change = (.evicted (victims.map File.record), flat.after
      (.evicted victims) (fs.map (File.changedAt f.path (File.edited change))) left) := by
  rw [h.policy_eq] at he
  have hc : flat.change f.path (fun r => { r with contents := change r.contents }) = _ :=
    h.change_eq f.path (File.edited change) (fun _ => rfl) .done rfl
  have hs := shrink_of_evicts h.maxFiles_lt h.maxBytes_lt he
  rw [← h.maxFiles_eq, ← h.maxBytes_eq] at hs
  rw [FlatStore.edit, h.onPath_of_mem hf, allows_record, if_pos ha, hc]
  simp only [FlatStore.after, hs, Answer.victims, List.length_map, List.length_nil, Nat.add_zero]

/-- What is refused by the rules is refused by the flat store, which does not change. -/
theorem perform_of_refuses (h : Mirrors placement fs s flat) {op : Operation} {e : StoreError}
    (hr : Refuses fs op e) : flat.perform op = (.refused e, flat) := by
  cases hr with
  | @missing op path ht hne =>
      have hm := fun act => h.onPath_of_missing hne act
      cases op <;> cases ht <;> exact hm _
  | @created f owner lock hf =>
      have hany : flat.records.any (·.path = f.path) = true := by
        rw [h.records_eq]
        exact List.any_eq_true.mpr ⟨f.record, List.mem_map_of_mem hf, by simp⟩
      rw [FlatStore.perform, if_pos hany]
  | @opened f owner lock hf ho =>
      rw [FlatStore.perform, h.onPath_of_mem hf, if_pos (show f.record.isOpen = true from ho)]
  | @openForbidden f owner lock hf ho ha =>
      rw [FlatStore.perform, h.onPath_of_mem hf, allows_record]
      simp [ho, ha]
  | @closed f owner hf ho =>
      rw [FlatStore.perform, h.onPath_of_mem hf]
      simp [ho]
  | @closeForbidden f owner hf ho ha =>
      rw [FlatStore.perform, h.onPath_of_mem hf, allows_record]
      simp [ho, ha]
  | @locked f owner hf hl =>
      have hn : f.record.lockOwner ≠ none := Option.isSome_iff_ne_none.mp hl
      rw [FlatStore.perform, h.onPath_of_mem hf, if_neg hn]
  | @unlocked f owner hf hl =>
      rw [FlatStore.perform, h.onPath_of_mem hf, if_pos (show f.record.lockOwner = none from hl)]
  | @unlockForbidden f owner holder hf hl hne =>
      rw [FlatStore.perform, h.onPath_of_mem hf]
      simp [hl, hne]
  | @replaceForbidden f owner contents hf ha =>
      rw [FlatStore.perform, FlatStore.edit, h.onPath_of_mem hf, allows_record]
      simp [ha]
  | @appendForbidden f owner contents hf ha =>
      rw [FlatStore.perform, FlatStore.edit, h.onPath_of_mem hf, allows_record]
      simp [ha]

/-- Every effect by the rules is what the flat store does. -/
theorem perform_of_effect (h : Mirrors placement fs s flat) {op : Operation} {answer : Answer}
    {peak gs : List File} (he : Effect s fs op answer peak gs) :
    flat.perform op = (answer.seen, flat.after answer peak gs) := by
  cases he with
  | refused hr => rw [h.perform_of_refuses hr, h.after_same rfl]; rfl
  | @spared f owner hf ha =>
      rw [FlatStore.perform, h.onPath_of_mem hf, allows_record, h.after_same rfl]
      simp [ha, Answer.seen]
  | @read f hf =>
      rw [FlatStore.perform, h.onPath_of_mem hf, h.after_same rfl]
      rfl
  | stats =>
      rw [FlatStore.perform, h.after_same rfl, ← h.stats_eq]
      rfl
  | @created path owner lock hne =>
      have hany : ¬ flat.records.any (·.path = path) = true := by
        rw [h.records_eq, List.any_eq_true]
        rintro ⟨r, hr, hp⟩
        obtain ⟨f, hf, rfl⟩ := List.mem_map.mp hr
        exact hne f hf (of_decide_eq_true hp)
      have hl : flat.records ++ [⟨path, [], true, if lock then some owner else none⟩] =
          (fs ++ [File.create path owner lock s.nextGeneration]).map File.record := by
        rw [h.records_eq, List.map_append]
        rfl
      rw [FlatStore.perform, if_neg hany, FlatStore.update, hl, List.length_map, bytes_map_record]
      rfl
  | @opened f owner lock hf ho ha =>
      rw [FlatStore.perform, h.onPath_of_mem hf, allows_record,
        h.change_eq f.path (File.opened owner lock) (fun _ => rfl) .done rfl]
      simp [ho, ha, Answer.seen]
  | @closed f owner hf ho ha =>
      rw [FlatStore.perform, h.onPath_of_mem hf, allows_record,
        h.change_eq f.path (.setOpen false) (fun _ => rfl) .done rfl]
      simp [ho, ha, Answer.seen]
  | @locked f owner hf hl =>
      have hn : f.lockOwner = none := by simpa [File.isLocked] using hl
      rw [FlatStore.perform, h.onPath_of_mem hf,
        h.change_eq f.path (.setLockOwner (some owner)) (fun _ => rfl) .done rfl]
      simp [hn, Answer.seen]
  | @unlocked f owner hf hl =>
      rw [FlatStore.perform, h.onPath_of_mem hf,
        h.change_eq f.path .unlocked (fun _ => rfl) .done rfl]
      simp [hl, Answer.seen]
  | @removed f owner hf ha =>
      rw [FlatStore.perform, h.onPath_of_mem hf, allows_record, if_pos ha, FlatStore.update,
        h.records_eq, without_map_record, List.length_map, bytes_map_record]
      rfl
  | @replaced f owner contents victims left hf ha he => exact h.edit_eq hf ha _ he
  | @appended f owner contents victims left hf ha he => exact h.edit_eq hf ha _ he
  | @released owner =>
      have hm : (flat.records.map fun r =>
          if r.lockOwner = some owner then { r with lockOwner := none } else r) =
          (fs.map (File.releasedBy owner)).map File.record := by
        rw [h.records_eq, List.map_map, List.map_map]
        apply List.map_congr_left
        intro f _
        by_cases hl : f.lockOwner = some owner <;>
          simp [File.releasedBy, File.unlocked, File.setLockOwner, File.record, hl]
      have hn : flat.records.countP (·.lockOwner = some owner) =
          fs.countP (·.lockOwner = some owner) := by
        rw [h.records_eq, List.countP_map]
        rfl
      rw [FlatStore.perform, FlatStore.update, hm, hn, List.length_map, bytes_map_record]
      rfl

/-- Performing the same operation gives the same answer and keeps the stores alike. -/
theorem perform (h : Mirrors placement fs s flat) (op : Operation) :
    (flat.perform op).1 = (s.perform op).1.seen ∧
      ∃ gs, Mirrors placement gs (s.perform op).2 (flat.perform op).2 := by
  obtain ⟨peak, gs, hp⟩ := h.tracks.perform op
  have hss := hp.sameSettings
  rw [h.perform_of_effect hp.effect]
  refine ⟨rfl, gs, hp.tracks, hss.placement_eq.trans h.placement_eq,
    hss.policy_eq.trans h.policy_eq, ?_, ?_, ?_, ?_, rfl, ?_, ?_, ?_⟩
  · rw [hss.maxFiles_eq]
    exact h.maxFiles_lt
  · rw [hss.maxBytes_eq]
    exact h.maxBytes_lt
  · rw [hss.maxFiles_eq]
    exact h.maxFiles_eq
  · rw [hss.maxBytes_eq]
    exact h.maxBytes_eq
  · rw [hp.maxFilesSeen_eq, h.maxFilesSeen_eq]
    change _ = ((max flat.maxFilesSeen peak.length : Nat) : Int)
    omega
  · rw [hp.maxBytesSeen_eq, h.maxBytesSeen_eq]
    change _ = ((max flat.maxBytesSeen (bytesOf peak) : Nat) : Int)
    omega
  · rw [hp.evictions_eq, h.evictions_eq]
    rfl

theorem listing_eq (h : Mirrors placement fs s flat) :
    (s.list 0).map File.record = flat.listing placement := by
  rw [← h.placement_eq, Store.list_eq, if_pos rfl, Store.files, h.tracks.holds.files_eq,
    FlatStore.listing, List.map_flatMap, h.records_eq]
  congr 1
  funext i
  rw [List.filter_map]
  rfl

/-! ## Runs -/

theorem run (h : Mirrors placement fs s flat) (ops : List Operation) :
    (flat.run ops).1 = (s.run ops).1.map Answer.seen ∧
      ∃ gs, Mirrors placement gs (s.run ops).2 (flat.run ops).2 := by
  -- The induction is on the operations; the tracked list changes from one to the next.
  induction ops generalizing fs s flat with
  | nil => exact ⟨rfl, fs, h⟩
  | cons op ops ih =>
      obtain ⟨ha, gs, hm⟩ := h.perform op
      obtain ⟨has, hs⟩ := ih hm
      exact ⟨by simp only [FlatStore.run, Store.run, List.map_cons, ha, has], hs⟩

end Mirrors

theorem mirrors_empty {maxFiles maxBytes : UInt64} (hf : maxFiles.toNat < 2 ^ 63)
    (hb : maxBytes.toNat < 2 ^ 63) (placement : Placement) (dice : Dice) :
    Mirrors placement [] (.empty maxFiles maxBytes placement .fifo dice)
      { maxFiles := maxFiles.toNat, maxBytes := maxBytes.toNat } :=
  ⟨Store.tracks_empty .., rfl, rfl, hf, hb, rfl, rfl, rfl, rfl, rfl, rfl⟩

/-- Whatever the number of buckets, 0 counting as 1, and whichever bucket each path is placed in,
every run of operations on a first-in-first-out store is answered as by the flat store, and ends
with the same counters and, bucket by bucket, the same files. -/
theorem seen_run_fifo (maxFiles maxBytes : UInt64) (hf : maxFiles.toNat < 2 ^ 63)
    (hb : maxBytes.toNat < 2 ^ 63) (count : Nat) (place : String → Fin (max count 1)) (dice : Dice)
    (ops : List Operation) :
    let stored := (Store.empty maxFiles maxBytes ⟨max count 1, place⟩ .fifo dice).run ops
    let flat := FlatStore.run { maxFiles := maxFiles.toNat, maxBytes := maxBytes.toNat } ops
    stored.1.map Answer.seen = flat.1 ∧ stored.2.stats = flat.2.stats ∧
      (stored.2.list 0).map File.record = flat.2.listing ⟨max count 1, place⟩ := by
  obtain ⟨ha, gs, hm⟩ := (mirrors_empty hf hb ⟨max count 1, place⟩ dice).run ops
  exact ⟨ha.symm, hm.stats_eq, hm.listing_eq⟩

/-- Three files in three buckets, of which the budgets of two files and five bytes let one stay. -/
theorem seen_run_fifo_three_buckets :
    (2 : UInt64).toNat < 2 ^ 63 ∧ (5 : UInt64).toNat < 2 ^ 63 ∧
      let place (path : String) : Fin 3 := Fin.ofNat 3 path.length
      let ops : List Operation := [.create "a" ⟨1⟩ false, .create "bb" ⟨2⟩ true,
        .create "ccc" ⟨1⟩ false, .replace "a" ⟨1⟩ [1, 2, 3], .append "ccc" ⟨1⟩ [4, 5, 6, 7],
        .remove "a" ⟨2⟩, .stats]
      let stored := (Store.empty 2 5 ⟨3, place⟩ .fifo ⟨fun _ => 0, 0⟩).run ops
      let flat := FlatStore.run { maxFiles := 2, maxBytes := 5 } ops
      stored.1.map Answer.seen = flat.1 ∧ stored.2.stats = flat.2.stats ∧
        (stored.2.list 0).map File.record = flat.2.listing ⟨3, place⟩ :=
  ⟨by decide, by decide, seen_run_fifo 2 5 (by decide) (by decide) 3
    (fun path => Fin.ofNat 3 path.length) ⟨fun _ => 0, 0⟩ _⟩

end FileDepot
