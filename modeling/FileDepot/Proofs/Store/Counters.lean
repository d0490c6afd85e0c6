import Mathlib.Data.Set.Insert
import Mathlib.Order.Bounds.Defs
import FileDepot.Proofs.Store.Budget
import FileDepot.Proofs.Store.Run
import FileDepot.Proofs.Store.Walk
import FileDepot.Store.Summary

/-! # Counters that never drift

In every state of a run the totals count the stored files. The history they keep is that of the
run: the largest number of files of any state, the largest number of bytes that a write or an
append brought about before its evictions, and the number of files evicted. -/

namespace FileDepot

/-! ## What one operation adds to the history -/

variable {s : Store} {fs peak gs : List File} {op : Operation} {answer : Answer}

/-- The list at its largest is as long as the one before or the one after. -/
theorem Effect.length_peak (h : Effect s fs op answer peak gs) :
    peak.length = fs.length ∨ peak = gs := by
  cases h with
  | replaced | appended => exact .inl (List.length_map _)
  | _ => exact .inr rfl

theorem Totals.Counts.of_perm {t : Totals} (h : t.Counts fs) (hp : gs.Perm fs) : t.Counts gs :=
  ⟨by rw [h.openFiles_eq, hp.countP_eq], by rw [h.files_eq, hp.length_eq],
    by rw [h.bytes_eq, bytesOf_eq_of_perm hp], h.files_le, h.bytes_le⟩

namespace Store

/-- A pass starts from a store whose bytes are those of the list at its largest. -/
theorem Passes.bytesOf_files {path : String} {t : Store} (h : s.Passes op path t)
    (hs : s.Tracks fs) (he : Effect s fs op (s.perform op).1 peak gs) :
    bytesOf t.files = bytesOf peak := by
  rw [perform_of_passes h] at he
  cases h with
  | @replaced f owner contents hf _ =>
      rw [(he.of_edit? rfl).1]
      exact bytesOf_eq_of_perm (hs.grown (hs.mem_of_find? hf).1 _).files_perm
  | @appended f owner contents hf _ =>
      rw [(he.of_edit? rfl).1]
      exact bytesOf_eq_of_perm (hs.grown (hs.mem_of_find? hf).1 _).files_perm

/-- Only the pass of a write or an append starts with more bytes than there were. -/
theorem Tracks.bytesOf_peak_le_or_passes (hs : s.Tracks fs)
    (h : Effect s fs op answer peak gs) :
    bytesOf peak ≤ bytesOf fs ∨ ∃ path t, s.Passes op path t := by
  cases h with
  | refused | spared | read | stats => exact .inl (Nat.le_refl _)
  | created => exact .inl (by simp [bytesOf, File.size, File.create])
  | opened | closed | locked | unlocked =>
      exact .inl (Nat.le_of_eq (bytesOf_map (size_changedAt (fun _ => by rfl)) fs))
  | removed => exact .inl (bytesOf_le_of_sublist List.filter_sublist)
  | replaced hf ha _ => exact .inr ⟨_, _, .replaced (hs.find?_path hf) ha⟩
  | appended hf ha _ => exact .inr ⟨_, _, .appended (hs.find?_path hf) ha⟩
  | released => exact .inl (Nat.le_of_eq (bytesOf_map (File.size_releasedBy _) fs))

/-! ## Histories of runs -/

/-- The numbers of files in the states of a run. -/
def fileCounts (s : Store) (ops : List Operation) : Set Nat :=
  {n | ∃ t ∈ s.states ops, t.files.length = n}

/-- The numbers of bytes in a run, each taken when a write or an append has been applied and no
file has been evicted for it. -/
def writtenBytes (s : Store) (ops : List Operation) : Set Nat :=
  {n | ∃ u op, (u, op) ∈ s.steps ops ∧ ∃ path t, u.Passes op path t ∧ bytesOf t.files = n}

theorem Tracks.run_evictions (h : s.Tracks fs) (ops : List Operation) :
    (s.run ops).2.totals.evictions = s.totals.evictions + (s.evictedBy ops).length := by
  induction ops generalizing s fs with
  | nil => rfl
  | cons op ops ih =>
      obtain ⟨peak, gs, hp⟩ := h.perform op
      change ((s.perform op).2.run ops).2.totals.evictions = _
      rw [ih hp.tracks, hp.evictions_eq, evictedBy_cons, List.length_append, Nat.add_assoc]

/-- A highest value that a step may raise to `p` before the rest of a run takes over. -/
theorem isGreatest_insert_of_max {m p n : Nat} {values rest : Set Nat}
    (h : IsGreatest (insert (max m p) rest) n) (hrest : rest ⊆ values)
    (hp : p ≤ m ∨ p ∈ values) (hle : ∀ k ∈ values, k ≤ max m p ∨ k ∈ rest) :
    IsGreatest (insert m values) n := by
  have hmax : max m p ∈ insert m values := by
    rcases Nat.le_total p m with hpm | hmp
    · exact .inl (Nat.max_eq_left hpm)
    · rcases hp with hpm | hp
      · exact .inl (Nat.max_eq_left hpm)
      · exact .inr (by rwa [Nat.max_eq_right hmp])
  constructor
  · rcases h.1 with rfl | hn
    · exact hmax
    · exact .inr (hrest hn)
  · have hmn : max m p ≤ n := h.2 (Set.mem_insert ..)
    rintro k (rfl | hk)
    · exact (Nat.le_max_left ..).trans hmn
    · rcases hle k hk with hk | hk
      · exact hk.trans hmn
      · exact h.2 (.inr hk)

theorem Tracks.length_le_maxFilesSeen (h : s.Tracks fs) {m : Nat} (hm : s.totals.maxFilesSeen = m) :
    s.files.length ≤ m := by
  have hle := h.counts.files_le
  rw [h.counts.files_eq, hm] at hle
  rw [h.files_perm.length_eq]
  exact Int.ofNat_le.mp hle

theorem Tracks.run_maxFilesSeen (h : s.Tracks fs) {m : Nat} (hm : s.totals.maxFilesSeen = m)
    (ops : List Operation) : ∃ n : Nat, (s.run ops).2.totals.maxFilesSeen = n ∧
      IsGreatest (insert m (s.fileCounts ops)) n := by
  -- The induction is on the operations; the highest value so far goes along.
  have hsm := h.length_le_maxFilesSeen hm
  induction ops generalizing s fs m with
  | nil =>
      refine ⟨m, hm, Set.mem_insert .., ?_⟩
      rintro n (rfl | ⟨t, ht, rfl⟩)
      · exact Nat.le_refl _
      · rwa [List.mem_singleton.mp ht]
  | cons op ops ih =>
      obtain ⟨peak, gs, hp⟩ := h.perform op
      have hm' : (s.perform op).2.totals.maxFilesSeen = (max m gs.length : Nat) := by
        have hl := hp.effect.left_sublist.length_le
        rw [h.files_perm.length_eq] at hsm
        rw [hp.maxFilesSeen_eq, hm]
        rcases hp.effect.length_peak with hpeak | rfl <;> omega
      obtain ⟨n, hn, hg⟩ := ih hp.tracks hm' (hp.tracks.length_le_maxFilesSeen hm')
      refine ⟨n, hn, isGreatest_insert_of_max hg ?_ (.inr ?_) ?_⟩
      · rintro k ⟨t, ht, rfl⟩
        exact ⟨t, List.mem_cons_of_mem _ ht, rfl⟩
      · exact ⟨_, List.mem_cons_of_mem _ (mem_states_self ..), hp.tracks.files_perm.length_eq⟩
      · rintro k ⟨t, ht, rfl⟩
        rcases List.mem_cons.mp ht with rfl | ht
        · exact .inl (hsm.trans (Nat.le_max_left ..))
        · exact .inr ⟨t, ht, rfl⟩

theorem Tracks.run_maxBytesSeen (h : s.Tracks fs) {m : Nat} (hm : s.totals.maxBytesSeen = m)
    (ops : List Operation) : ∃ n : Nat, (s.run ops).2.totals.maxBytesSeen = n ∧
      IsGreatest (insert m (s.writtenBytes ops)) n := by
  induction ops generalizing s fs m with
  | nil =>
      refine ⟨m, hm, Set.mem_insert .., ?_⟩
      rintro n (rfl | ⟨u, op, hu, -⟩)
      · exact Nat.le_refl _
      · simp [steps] at hu
  | cons op ops ih =>
      obtain ⟨peak, gs, hp⟩ := h.perform op
      have hle := h.counts.bytes_le
      rw [h.counts.bytes_eq, hm] at hle
      have hm' : (s.perform op).2.totals.maxBytesSeen = (max m (bytesOf peak) : Nat) := by
        rw [hp.maxBytesSeen_eq, hm]
        omega
      obtain ⟨n, hn, hg⟩ := ih hp.tracks hm'
      refine ⟨n, hn, isGreatest_insert_of_max hg ?_ ?_ ?_⟩
      · rintro k ⟨u, op', hu, hk⟩
        exact ⟨u, op', List.mem_cons_of_mem _ hu, hk⟩
      · rcases h.bytesOf_peak_le_or_passes hp.effect with hpeak | ⟨path, t, ht⟩
        · exact .inl (by omega)
        · exact .inr ⟨s, op, List.mem_cons_self, path, t, ht, ht.bytesOf_files h hp.effect⟩
      · rintro k ⟨u, op', hu, path, t, ht, rfl⟩
        rcases List.mem_cons.mp hu with he | hu
        · obtain ⟨rfl, rfl⟩ := Prod.mk.inj he
          rw [ht.bytesOf_files h hp.effect]
          exact .inl (Nat.le_max_right ..)
        · exact .inr ⟨u, op', hu, path, t, ht, rfl⟩

/-- After every run, whatever the policy, its dice, the buckets and the limits: the totals are the
numbers of stored files, of open ones and of their bytes, and so no report has a negative total to
hide; the evictions are those of all answers; the highest number of files is that of some state of
the run, and the highest number of bytes that of some write or append before its evictions, or 0
before any. The summary lists as many files, of as many bytes, as it reports. -/
theorem run_totals_exact (maxFiles maxBytes : UInt64) (placement : Placement) (policy : Policy)
    (dice : Dice) (ops : List Operation) :
    let start := empty maxFiles maxBytes placement policy dice
    let s := (start.run ops).2
    let summary := Summary.ofStore s
    s.totals = {
      openFiles := s.files.countP (·.isOpen)
      files := s.files.length
      bytes := bytesOf s.files
      maxFilesSeen := s.stats.maxFilesSeen
      maxBytesSeen := s.stats.maxBytesSeen
      evictions := (start.evictedBy ops).length } ∧
    IsGreatest (start.fileCounts ops) s.stats.maxFilesSeen ∧
    IsGreatest (insert 0 (start.writtenBytes ops)) s.stats.maxBytesSeen ∧
    summary.files.length = s.stats.files ∧ (summary.files.map Prod.snd).sum = s.stats.bytes := by
  intro start s summary
  have hstart : start.Tracks [] := tracks_empty maxFiles maxBytes placement policy dice
  obtain ⟨gs, hs⟩ := hstart.run ops
  obtain ⟨files, hfiles, hgf⟩ := hstart.run_maxFilesSeen (m := 0) rfl ops
  obtain ⟨bytes, hbytes, hgb⟩ := hstart.run_maxBytesSeen (m := 0) rfl ops
  have hc : s.totals.Counts s.files := hs.counts.of_perm hs.files_perm
  have hsf : s.stats.maxFilesSeen = files := by
    rw [stats, Totals.stats, hfiles, Int.toNat_natCast]
  have hsb : s.stats.maxBytesSeen = bytes := by
    rw [stats, Totals.stats, hbytes, Int.toNat_natCast]
  have he : s.totals.evictions = (start.evictedBy ops).length :=
    (hstart.run_evictions ops).trans (Nat.zero_add _)
  have hlist : s.list 0 = s.files := by rw [list_eq, if_pos rfl]
  refine ⟨?_, ?_, ?_, ?_, ?_⟩
  · rw [hsf, hsb, ← hc.openFiles_eq, ← hc.files_eq, ← hc.bytes_eq, ← hfiles, ← hbytes, ← he]
  · have hzero : 0 ∈ start.fileCounts ops :=
      ⟨start, mem_states_self .., hstart.files_perm.length_eq⟩
    rw [hsf]
    rwa [Set.insert_eq_of_mem hzero] at hgf
  · rwa [hsb]
  · rw [stats, Totals.stats, hc.files_eq, Int.toNat_natCast, ← hlist]
    exact List.length_map _
  · rw [stats, Totals.stats, hc.bytes_eq, Int.toNat_natCast, ← hlist]
    exact congrArg List.sum (List.map_map ..)

end Store

end FileDepot
