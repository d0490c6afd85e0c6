import FileDepot.Proofs.Store.Conservation
import FileDepot.Proofs.Store.Locks
import FileDepot.Proofs.Store.Run

/-! # Locks exclude other clients

A locked file that only other clients' operations come near stays as it is until it is evicted.
What they ask of it is denied, and a lock only passes from one client to another by way of a state
in which nobody has it. -/

namespace FileDepot

/-- The path that an operation creates, changes or removes a file under. -/
def Operation.changes? : Operation → Option String
  | .create path .. | .openFile path .. | .close path _ | .lock path _ | .unlock path _
  | .remove path _ | .replace path .. | .append path .. => some path
  | .read _ | .release _ | .stats => none

/-- The answers that deny a client a file: a removal says that the file is still there, and every
other operation is refused. -/
def Operation.Denied : Operation → Answer → Prop
  | .remove .., answer => answer = .removed false
  | _, answer => ∃ e, answer = .refused e

theorem Operation.not_denied_done (op : Operation) : ¬ op.Denied .done := by
  cases op <;> simp [Denied]

theorem Operation.not_denied_evicted (op : Operation) (victims : List File) :
    ¬ op.Denied (.evicted victims) := by
  cases op <;> simp [Denied]

theorem File.not_allows_of_lockOwner {f : File} {a owner : ClientId} (hl : f.lockOwner = some a)
    (hne : owner ≠ a) : f.allows owner = false := by
  simp [File.allows, hl, Ne.symm hne]

/-! ## What one operation does to a lock -/

section

variable {s : Store} {fs peak gs : List File} {op : Operation} {answer : Answer} {a : ClientId}

/-- A locked file is denied to everybody else. -/
theorem Effect.denied (h : Effect s fs op answer peak gs) (hn : (fs.map File.path).Nodup)
    (hop : op.client? ≠ some a) {f : File} (hf : f ∈ fs) (hl : f.lockOwner = some a)
    (hc : op.changes? = some f.path) : op.Denied answer := by
  -- No file under that path allows the operation's client, since the only one is `f`.
  have hallows : ∀ {g owner}, g ∈ fs → g.path = f.path → op.client? = some owner →
      g.allows owner = false := by
    rintro g owner hg hp ho
    rw [File.eq_of_path_eq hn hg hf hp]
    exact File.not_allows_of_lockOwner hl fun he => hop (ho.trans (congrArg some he))
  cases h with
  | refused hr =>
      cases op with
      | remove =>
          cases hr with
          | missing ht hne => exact absurd (Option.some.inj (hc.symm.trans ht)) (hne f hf)
      | _ => exact ⟨_, rfl⟩
  | spared => rfl
  | read | stats | released => cases hc
  | created hne => exact absurd (Option.some.inj hc).symm (hne f hf)
  | opened hg _ ha | closed hg _ ha | removed hg ha | replaced hg ha _ | appended hg ha _ =>
      rw [hallows hg (Option.some.inj hc) rfl] at ha
      cases ha
  | locked hg hu =>
      rw [File.eq_of_path_eq hn hg hf (Option.some.inj hc), File.isLocked, hl] at hu
      cases hu
  | unlocked hg hu =>
      rw [File.eq_of_path_eq hn hg hf (Option.some.inj hc), hl] at hu
      exact absurd hu.symm hop

theorem File.filter_generation_map {change : File → File} {generation : Nat}
    (hc : ∀ f, (change f).ticket = f.ticket)
    (hfix : ∀ f ∈ fs, f.generation = generation → change f = f) :
    (fs.map change).filter (·.generation = generation) =
      fs.filter (·.generation = generation) := by
  have hp : (fun f : File => decide (f.generation = generation)) ∘ change =
      fun f => decide (f.generation = generation) := by
    funext f
    rw [Function.comp_apply, show (change f).generation = f.generation from
      congrArg Ticket.generation (hc f)]
  rw [List.filter_map, hp]
  refine (List.map_congr_left fun f hf => ?_).trans (List.map_id _)
  exact hfix f (List.mem_filter.mp hf).1 (by simpa using (List.mem_filter.mp hf).2)

/-- An operation by somebody else neither touches the file of a generation that is locked, nor
stores another one of that generation. -/
theorem Effect.filter_generation_peak (h : Effect s fs op answer peak gs)
    (hn : (fs.map File.path).Nodup) (hop : op.client? ≠ some a) {generation : Nat}
    (hlt : generation < s.nextGeneration)
    (hl : ∀ f ∈ fs, f.generation = generation → f.lockOwner = some a) :
    peak.filter (·.generation = generation) = fs.filter (·.generation = generation) := by
  have hd : ∀ f ∈ fs, f.generation = generation → op.changes? = some f.path → op.Denied answer :=
    fun f hf hg => h.denied hn hop hf (hl f hf hg)
  have hchanged : ∀ {path : String} {change : File → File},
      (∀ f, (change f).ticket = f.ticket) → op.changes? = some path → ¬ op.Denied answer →
      (fs.map (File.changedAt path change)).filter (·.generation = generation) =
        fs.filter (·.generation = generation) := by
    intro path change hc hp hnd
    refine File.filter_generation_map (File.ticket_changedAt path hc) fun f hf hg =>
      File.changedAt_of_ne ?_
    rintro rfl
    exact hnd (hd f hf hg hp)
  cases h with
  | refused | spared | read | stats => rfl
  | created =>
      rw [List.filter_append, List.filter_cons_of_neg, List.filter_nil, List.append_nil]
      simp [File.create, hlt.ne']
  | opened | closed | locked | unlocked =>
      exact hchanged (fun _ => rfl) rfl (Operation.not_denied_done _)
  | replaced | appended =>
      exact hchanged (fun _ => rfl) rfl (Operation.not_denied_evicted _ _)
  | @removed f owner =>
      rw [List.filter_filter]
      refine List.filter_congr fun g hg => ?_
      by_cases he : g.generation = generation
      · have hne : g.path ≠ f.path := by
          intro hp
          have hd := hd g hg he (congrArg some hp.symm)
          cases hd
        simp [he, hne]
      · simp [he]
  | @released owner =>
      refine File.filter_generation_map (File.ticket_releasedBy owner) fun f hf hg => ?_
      rw [File.releasedBy, if_neg]
      rw [hl f hf hg]
      exact Ne.symm hop

end

namespace Store

variable {s : Store} {fs : List File}

theorem Keeps.eq_of_generation_eq (h : s.Keeps fs) {f g : File} (hf : f ∈ fs) (hg : g ∈ fs)
    (he : f.generation = g.generation) : f = g := by
  have hn : (fs.map File.generation).Nodup :=
    List.pairwise_map.mpr (h.increasing.imp Nat.ne_of_lt)
  exact List.inj_on_of_nodup_map hn hf hg he

theorem Keeps.filter_generation_eq (h : s.Keeps fs) {f : File} (hf : f ∈ fs) :
    fs.filter (·.generation = f.generation) = [f] := by
  rw [← List.perm_singleton]
  refine (List.perm_ext_iff_of_nodup ((h.nodup.of_map _).filter _) (List.nodup_singleton f)).mpr ?_
  intro g
  rw [List.mem_filter, List.mem_singleton]
  constructor
  · rintro ⟨hg, he⟩
    exact h.eq_of_generation_eq hg hf (by simpa using he)
  · rintro rfl
    exact ⟨hf, by simp⟩

/-- Generations are never used again. -/
theorem Tracks.nextGeneration_le (h : s.Tracks fs) (op : Operation) :
    s.nextGeneration ≤ (s.perform op).2.nextGeneration := by
  have hedit : ∀ path owner change,
      (s.edit path owner change).2.nextGeneration = s.nextGeneration := by
    intro path owner change
    rcases h.find?_cases path with ⟨hf, -⟩ | ⟨f, hm, rfl, hf⟩
    · rw [edit_of_missing hf]
    · cases ha : f.allows owner with
      | false => rw [edit_of_not_allows hf ha]
      | true =>
          obtain ⟨left, hev⟩ := (h.grown hm change).evict f.path
          rw [edit_eq hf ha]
          exact hev.nextGeneration_eq
  cases op with
  | create path owner lock =>
      simp only [Store.perform, create]
      split
      · exact Nat.le_refl _
      · exact Nat.le_succ _
  | replace path owner contents => exact (hedit path owner fun _ => contents).ge
  | append path owner contents => exact (hedit path owner (· ++ contents)).ge
  | read | release | stats => exact Nat.le_refl _
  | _ =>
      simp only [Store.perform, openFile, close, lock, unlock, remove]
      repeat' split
      all_goals exact Nat.le_refl _

/-- However a run goes on, the file of a generation that a client has locked is stored or has been
handed over, as it was, unless the client acts. -/
theorem Tracks.run_filter_generation (h : s.Tracks fs) {a : ClientId} {generation : Nat}
    (hlt : generation < s.nextGeneration)
    (hl : ∀ f ∈ fs, f.generation = generation → f.lockOwner = some a) (ops : List Operation)
    (hops : ∀ op ∈ ops, op.client? ≠ some a) :
    ((s.evictedBy ops ++ (s.run ops).2.files).filter (·.generation = generation)).Perm
      (fs.filter (·.generation = generation)) := by
  induction ops generalizing s fs with
  | nil => exact h.files_perm.filter _
  | cons op ops ih =>
      obtain ⟨peak, gs, hp⟩ := h.perform op
      have hop := hops op List.mem_cons_self
      have hpeak := hp.effect.filter_generation_peak h.nodup hop hlt hl
      have hgs : ∀ g ∈ gs, g.generation = generation → g.lockOwner = some a := by
        intro g hg he
        have hmem : g ∈ peak.filter (·.generation = generation) :=
          List.mem_filter.mpr ⟨hp.effect.left_sublist.subset hg, by simpa using he⟩
        rw [hpeak] at hmem
        exact hl g (List.mem_filter.mp hmem).1 he
      have hrest := ih hp.tracks (hlt.trans_le (h.nextGeneration_le op)) hgs
        fun o ho => hops o (List.mem_cons_of_mem _ ho)
      have hsplit := (hp.effect.victims_append_perm h.nodup).filter (·.generation = generation)
      rw [List.filter_append, hpeak] at hsplit
      rw [evictedBy_cons, List.append_assoc, List.filter_append]
      exact (hrest.append_left _).trans hsplit

/-- After every run, whatever the policy, its dice, the buckets and the limits: a file that a
client has locked stays stored as it is through all operations of other clients, or else it is
handed over as it was in exactly one eviction and no file of its generation is stored any more. As
long as it is stored, everything that the others ask of it is denied. No operation at all passes a
lock from one client to another. -/
theorem lock_exclusive (maxFiles maxBytes : UInt64) (placement : Placement) (policy : Policy)
    (dice : Dice) (before : List Operation) :
    let s := ((empty maxFiles maxBytes placement policy dice).run before).2
    (∀ f ∈ s.files, ∀ a, f.lockOwner = some a → ∀ ops : List Operation,
      (∀ op ∈ ops, op.client? ≠ some a) →
      let t := (s.run ops).2
      (f ∈ t.files ∧ (∀ g ∈ s.evictedBy ops, g.generation ≠ f.generation) ∨
        (s.evictedBy ops).filter (·.generation = f.generation) = [f] ∧
          ∀ g ∈ t.files, g.generation ≠ f.generation) ∧
      ∀ u op, (u, op) ∈ s.steps ops → f ∈ u.files → op.changes? = some f.path →
        op.Denied (u.perform op).1) ∧
    ∀ op, ∀ f ∈ s.files, ∀ g ∈ (s.perform op).1.victims ++ (s.perform op).2.files,
      g.generation = f.generation → ∀ a b, f.lockOwner = some a → g.lockOwner = some b → a = b := by
  intro s
  obtain ⟨fs, hs⟩ := (tracks_empty maxFiles maxBytes placement policy dice).run before
  constructor
  · intro f hf a hl ops hops t
    have hf := hs.files_perm.mem_iff.mp hf
    constructor
    · have hlock : ∀ g ∈ fs, g.generation = f.generation → g.lockOwner = some a := by
        intro g hg he
        rwa [hs.eq_of_generation_eq hg hf he]
      have hrun := hs.run_filter_generation (hs.fresh f hf) hlock ops hops
      rw [hs.filter_generation_eq hf, List.perm_singleton, List.filter_append,
        List.append_eq_singleton_iff] at hrun
      refine hrun.imp (fun ⟨hnone, hone⟩ => ⟨?_, ?_⟩) fun ⟨hone, hnone⟩ => ⟨hone, ?_⟩
      · exact List.mem_of_mem_filter (hone ▸ List.mem_singleton_self f)
      · simpa using hnone
      · simpa using hnone
    · intro u op hu hfu hc
      obtain ⟨hop, us, hus⟩ := hs.of_mem_steps hu
      obtain ⟨peak, gs, hp⟩ := hus.perform op
      exact hp.effect.denied hus.nodup (hops op hop) (hus.files_perm.mem_iff.mp hfu) hl hc
  · intro op f hf g hg he a b ha hb
    obtain ⟨peak, gs, hp⟩ := hs.perform op
    have hf := hs.files_perm.mem_iff.mp hf
    have hg : g ∈ peak := (((hp.tracks.files_perm.append_left _).trans
      (hp.effect.victims_append_perm hs.nodup)).mem_iff).mp hg
    rcases hp.effect.origin hs.nodup hg with ⟨owner, lock, -, hnew⟩ | ⟨k, hk, hkg, hab⟩
    · exact absurd (he.symm.trans hnew) (hs.fresh f hf).ne
    · obtain rfl := hs.eq_of_generation_eq hk hf ((congrArg Ticket.generation hkg).trans he)
      exact hab a b ha hb

/-- A locked file outlasts a removal and a release by another client, whose write then evicts it. -/
theorem lock_exclusive_two_buckets :
    let before : List Operation := [.create "a" ⟨1⟩ true, .append "a" ⟨1⟩ [1, 2],
      .create "b" ⟨2⟩ false]
    let s := ((empty 1 3 ⟨2, fun path => Fin.ofNat 2 path.length⟩ .segmentedFifo
      ⟨fun n => 7 * n, 0⟩).run before).2
    let f : File := ⟨"a", [1, 2], true, some ⟨1⟩, 0⟩
    let ops : List Operation := [.remove "a" ⟨2⟩, .release ⟨2⟩, .append "b" ⟨2⟩ [3, 4]]
    f ∈ s.files ∧ (∀ op ∈ ops, op.client? ≠ some ⟨1⟩) ∧
      (f ∈ (s.run ops).2.files ∧ (∀ g ∈ s.evictedBy ops, g.generation ≠ f.generation) ∨
        (s.evictedBy ops).filter (·.generation = f.generation) = [f] ∧
          ∀ g ∈ (s.run ops).2.files, g.generation ≠ f.generation) ∧
      Operation.Denied (.remove "a" ⟨2⟩) (s.perform (.remove "a" ⟨2⟩)).1 :=
  have kept := (lock_exclusive 1 3 ⟨2, fun path => Fin.ofNat 2 path.length⟩ .segmentedFifo
    ⟨fun n => 7 * n, 0⟩ [.create "a" ⟨1⟩ true, .append "a" ⟨1⟩ [1, 2], .create "b" ⟨2⟩ false]).1
    ⟨"a", [1, 2], true, some ⟨1⟩, 0⟩ (by decide +kernel) ⟨1⟩ rfl
    [.remove "a" ⟨2⟩, .release ⟨2⟩, .append "b" ⟨2⟩ [3, 4]] (by decide)
  ⟨by decide +kernel, by decide, kept.1,
    kept.2 _ _ List.mem_cons_self (by decide +kernel) rfl⟩

end Store

end FileDepot
