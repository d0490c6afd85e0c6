import FileDepot.Proofs.Store.Tracking

/-! # The eviction pass

Files leave the tracked list one by one, each picked by the policy, while the list exceeds a
budget. The pass never runs out of rounds: every round shortens the list. -/

namespace FileDepot

/-- Whether some files are over one of the budgets, as the totals would be compared with them. -/
def Exceeds (maxFiles maxBytes : UInt64) (fs : List File) : Prop :=
  signedBudget maxFiles < fs.length ∨ signedBudget maxBytes < bytesOf fs

theorem signedBudget_eq {limit : UInt64} (h : limit.toNat < 2 ^ 63) :
    signedBudget limit = limit.toNat := by
  have hb : limit.toInt64.toInt = limit.toBitVec.toInt := rfl
  rw [signedBudget, hb, BitVec.toInt_eq_toNat_of_lt]
  · rfl
  · change 2 * limit.toNat < 2 ^ 64
    omega

theorem exceeds_iff {maxFiles maxBytes : UInt64} (hf : maxFiles.toNat < 2 ^ 63)
    (hb : maxBytes.toNat < 2 ^ 63) (fs : List File) :
    Exceeds maxFiles maxBytes fs ↔ maxFiles.toNat < fs.length ∨ maxBytes.toNat < bytesOf fs := by
  rw [Exceeds, signedBudget_eq hf, signedBudget_eq hb]
  omega

/-- Files leave a list one by one while it exceeds a budget. The rules give the evicted files in
their order, and the files left. -/
inductive Evicts (maxFiles maxBytes : UInt64) (policy : Policy) (protect : String) :
    List File → List File → List File → Prop where
  | within {fs} : ¬ Exceeds maxFiles maxBytes fs → Evicts maxFiles maxBytes policy protect fs [] fs
  | exhausted : Exceeds maxFiles maxBytes [] → Evicts maxFiles maxBytes policy protect [] [] []
  | evict {fs f victims left} : Exceeds maxFiles maxBytes fs → policy.Picks protect fs f →
      Evicts maxFiles maxBytes policy protect (fs.filter (·.path ≠ f.path)) victims left →
      Evicts maxFiles maxBytes policy protect fs (f :: victims) left

namespace Evicts

variable {maxFiles maxBytes : UInt64} {policy : Policy} {protect : String}
  {fs victims left : List File}

/-- Budgets below `2 ^ 63` are met when the pass ends. -/
theorem not_exceeds (h : Evicts maxFiles maxBytes policy protect fs victims left)
    (hf : maxFiles.toNat < 2 ^ 63) (hb : maxBytes.toNat < 2 ^ 63) :
    ¬ Exceeds maxFiles maxBytes left := by
  induction h with
  | within h => exact h
  | exhausted => simp [exceeds_iff hf hb, bytesOf]
  | evict _ _ _ ih => exact ih

theorem left_sublist (h : Evicts maxFiles maxBytes policy protect fs victims left) :
    left.Sublist fs := by
  induction h with
  | within => exact .refl _
  | exhausted => exact .refl _
  | evict _ _ _ ih => exact ih.trans List.filter_sublist

end Evicts

/-- Two stores of one kind: the same budgets, buckets of one placement, and the same policy. -/
structure Store.SameSettings (s t : Store) : Prop where
  maxFiles_eq : t.maxFiles = s.maxFiles
  maxBytes_eq : t.maxBytes = s.maxBytes
  placement_eq : t.buckets.placement = s.buckets.placement
  policy_eq : t.chooser.policy = s.chooser.policy

namespace Store

variable {s t u : Store} {fs : List File}

theorem SameSettings.refl (s : Store) : s.SameSettings s :=
  ⟨rfl, rfl, rfl, rfl⟩

theorem SameSettings.trans (h : s.SameSettings t) (h' : t.SameSettings u) : s.SameSettings u :=
  ⟨h'.maxFiles_eq.trans h.maxFiles_eq, h'.maxBytes_eq.trans h.maxBytes_eq,
    h'.placement_eq.trans h.placement_eq, h'.policy_eq.trans h.policy_eq⟩

theorem Tracks.overBudget_iff (h : s.Tracks fs) :
    s.OverBudget ↔ Exceeds s.maxFiles s.maxBytes fs := by
  rw [OverBudget, Exceeds, h.counts.files_eq, h.counts.bytes_eq]

/-! ## One victim -/

/-- A policy may pick any listed file once all are protected, and then there is just one. -/
theorem picks_of_all_protected {policy : Policy} {protect : String} {f : File}
    (hn : (fs.map File.path).Nodup) (hp : ∀ g ∈ fs, g.path = protect) (hf : f ∈ fs) :
    policy.Picks protect fs f := by
  have hone : ∀ g ∈ fs, g = f := fun g hg =>
    File.eq_of_path_eq hn hg hf ((hp g hg).trans (hp f hf).symm)
  cases policy with
  | segmentedFifo => exact ⟨hf, fun _ => hp⟩
  | fifo =>
      have hnone : fs.find? (·.path ≠ protect) = none :=
        List.find?_eq_none.mpr fun g hg => by simpa using hp g hg
      cases fs with
      | nil => simp at hf
      | cons g gs =>
          change ((g :: gs).find? (·.path ≠ protect)).or (some g) = some f
          rw [hnone, hone g (by simp), Option.none_or]

/-- What one search for a victim does: it finds none only in an empty store, and else one that the
policy picks and that leaves the list. The totals are as before. -/
structure VictimTaken (s : Store) (protect : String) (fs : List File) (victim : Option File)
    (t : Store) : Prop where
  sameSettings : s.SameSettings t
  totals_eq : t.totals = s.totals
  nextGeneration_eq : t.nextGeneration = s.nextGeneration
  none : victim = none → fs = [] ∧ t.Keeps []
  some : ∀ f, victim = some f →
    s.chooser.policy.Picks protect fs f ∧ t.Keeps (fs.filter (·.path ≠ f.path))

theorem Keeps.takeVictim (h : s.Keeps fs) (protect : String) :
    VictimTaken s protect fs (s.takeVictim protect).1 (s.takeVictim protect).2 := by
  have hc := Chooser.chosen_choose h.holds h.nodup h.covers protect
  unfold Store.takeVictim
  cases hv : s.chooser.choose s.buckets protect with
  | mk victim after =>
      obtain ⟨chooser, rest⟩ := after
      rw [hv] at hc
      cases victim with
      | some f =>
          obtain ⟨-, hp, hh, hco⟩ := hc.some f rfl
          refine ⟨⟨rfl, rfl, hc.placement_eq, hc.policy_eq⟩, rfl, rfl, by simp, ?_⟩
          rintro g hg
          obtain rfl : f = g := Option.some.inj hg
          exact ⟨hp, h.filter hh hco _⟩
      | none =>
          obtain ⟨hr, hco, hall⟩ := hc.none rfl
          obtain rfl : rest = s.buckets := hr
          simp only
          cases hf : fs.find? (·.path = protect) with
          | none =>
              have hnil : fs = [] := List.eq_nil_iff_forall_not_mem.mpr fun g hg => by
                simpa [hall g hg] using List.find?_eq_none.mp hf g hg
              subst hnil
              rw [h.holds.take?_eq_none hf]
              refine ⟨⟨rfl, rfl, rfl, hc.policy_eq⟩, rfl, rfl, fun _ => ⟨rfl, ?_⟩, by simp⟩
              exact ⟨h.holds, by simp, .nil, by simp, hco⟩
          | some f =>
              obtain ⟨rest, ht, hpl, hh⟩ := h.holds.take?_eq_some h.nodup hf
              have hm := List.mem_of_find?_eq_some hf
              rw [ht]
              refine ⟨⟨rfl, rfl, hpl, hc.policy_eq⟩, rfl, rfl, by simp, ?_⟩
              rintro g hg
              obtain rfl : f = g := Option.some.inj hg
              rw [hall f hm]
              exact ⟨picks_of_all_protected h.nodup hall hm, h.filter hh (hco.filter _) _⟩

/-- The store after a victim has been taken out of it, once the totals leave it out. -/
def dropped (s : Store) (victim : File) : Store :=
  { s with totals := s.totals.withoutEvicted victim }

/-- One round takes its victim off the list and moves no highest value. -/
theorem Tracks.round (h : s.Tracks fs) {protect : String} {f : File} {t : Store}
    (ht : s.takeVictim protect = (some f, t)) :
    s.chooser.policy.Picks protect fs f ∧ (t.dropped f).Tracks (fs.filter (·.path ≠ f.path)) ∧
      s.SameSettings (t.dropped f) ∧
      (t.dropped f).totals.maxFilesSeen = s.totals.maxFilesSeen ∧
      (t.dropped f).totals.maxBytesSeen = s.totals.maxBytesSeen := by
  have hv := h.toKeeps.takeVictim protect
  rw [ht] at hv
  obtain ⟨hp, hk⟩ := hv.some f rfl
  obtain ⟨hc, hmf, hmb⟩ := h.counts.without h.nodup hp.mayGo.1
  have hss := hv.sameSettings
  refine ⟨hp, ⟨⟨hk.1, hk.2, hk.3, hk.4, hk.5⟩, ?_⟩, ⟨hss.1, hss.2, hss.3, hss.4⟩, ?_, ?_⟩
  · rw [dropped, hv.totals_eq]
    exact ⟨hc.1, hc.2, hc.3, hc.4, hc.5⟩
  · rw [dropped, hv.totals_eq]
    exact hmf
  · rw [dropped, hv.totals_eq]
    exact hmb

/-! ## The whole pass -/

/-- What a pass does to a store that tracks a list: files are evicted by the rules, the store
tracks the files left, no highest value moves, and every eviction is counted. -/
structure Evicted (s : Store) (protect : String) (fs victims : List File) (t : Store)
    (left : List File) : Prop where
  evicts : Evicts s.maxFiles s.maxBytes s.chooser.policy protect fs victims left
  tracks : t.Tracks left
  sameSettings : s.SameSettings t
  nextGeneration_eq : t.nextGeneration = s.nextGeneration
  maxFilesSeen_eq : t.totals.maxFilesSeen = s.totals.maxFilesSeen
  maxBytesSeen_eq : t.totals.maxBytesSeen = s.totals.maxBytesSeen
  evictions_eq : t.totals.evictions = s.totals.evictions + victims.length

theorem Evicted.cons {protect : String} {f : File} {victims left : List File}
    (ho : Exceeds s.maxFiles s.maxBytes fs) (hp : s.chooser.policy.Picks protect fs f)
    (hs : s.SameSettings t) (hg : t.nextGeneration = s.nextGeneration)
    (hmf : t.totals.maxFilesSeen = s.totals.maxFilesSeen)
    (hmb : t.totals.maxBytesSeen = s.totals.maxBytesSeen)
    (he : t.totals.evictions = s.totals.evictions + 1)
    (h : Evicted t protect (fs.filter (·.path ≠ f.path)) victims u left) :
    Evicted s protect fs (f :: victims) u left := by
  refine ⟨.evict ho hp ?_, h.tracks, hs.trans h.sameSettings, h.nextGeneration_eq.trans hg,
    h.maxFilesSeen_eq.trans hmf, h.maxBytesSeen_eq.trans hmb, ?_⟩
  · simpa only [hs.maxFiles_eq, hs.maxBytes_eq, hs.policy_eq] using h.evicts
  · rw [h.evictions_eq, he, List.length_cons]
    omega

theorem Tracks.evictUpTo (h : s.Tracks fs) (protect : String) {fuel : Nat}
    (hl : fs.length < fuel) :
    ∃ left, Evicted s protect fs (evictUpTo protect fuel s).1 (evictUpTo protect fuel s).2 left := by
  -- The induction is on the rounds allowed, which are more than there are files.
  induction fuel generalizing s fs with
  | zero => simp at hl
  | succ fuel ih =>
      unfold Store.evictUpTo
      by_cases ho : s.OverBudget
      · have hx := h.overBudget_iff.mp ho
        have hv := h.toKeeps.takeVictim protect
        rw [if_pos ho]
        cases ht : s.takeVictim protect with
        | mk victim t =>
            rw [ht] at hv
            cases victim with
            | none =>
                obtain ⟨rfl, hk⟩ := hv.none rfl
                exact ⟨[], .exhausted hx, ⟨hk, hv.totals_eq ▸ h.counts⟩, hv.sameSettings,
                  hv.nextGeneration_eq, by rw [hv.totals_eq], by rw [hv.totals_eq],
                  by rw [hv.totals_eq]; rfl⟩
            | some f =>
                obtain ⟨hp, hd, hss, hmf, hmb⟩ := h.round ht
                have hlt : (fs.filter (·.path ≠ f.path)).length < fuel := by
                  have hd : (fs.filter (·.path ≠ f.path)).length < fs.length :=
                    List.length_filter_lt_length_iff_exists.mpr ⟨f, hp.mayGo.1, by simp⟩
                  omega
                obtain ⟨left, hr⟩ := ih hd hlt
                refine ⟨left, .cons hx hp hss hv.nextGeneration_eq hmf hmb ?_ hr⟩
                change t.totals.evictions + 1 = s.totals.evictions + 1
                rw [hv.totals_eq]
      · rw [if_neg ho]
        exact ⟨fs, .within (mt h.overBudget_iff.mpr ho), h, .refl s, rfl, rfl, rfl, rfl⟩

theorem Tracks.evict (h : s.Tracks fs) (protect : String) :
    ∃ left, Evicted s protect fs (s.evict protect).1 (s.evict protect).2 left :=
  h.evictUpTo protect (by rw [h.holds.size_eq]; exact Nat.lt_succ_self _)

end Store

end FileDepot
