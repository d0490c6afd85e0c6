import FileDepot.Proofs.Store.Minimality

/-! # Limits over their whole range

A limit is a 64-bit word and is compared as a signed number. Up to `2 ^ 63 - 1` it means what it
says. From `2 ^ 63` on it is negative, so every total is over it, that of an empty store too, and a
write ends with no file left. -/

namespace FileDepot

theorem signedBudget_neg {limit : UInt64} (h : 2 ^ 63 ≤ limit.toNat) : signedBudget limit < 0 := by
  have hb : limit.toInt64.toInt = limit.toBitVec.toInt := rfl
  rw [signedBudget, hb, BitVec.toInt_neg_iff]
  change 2 ^ 64 ≤ 2 * limit.toNat
  omega

/-- Some files exceed the limits as they are compared when they are over them as they are given, or
when a limit is out of the range of signed words. -/
theorem exceeds_iff_or_isOver (maxFiles maxBytes : UInt64) (fs : List File) :
    Exceeds maxFiles maxBytes fs ↔
      (2 ^ 63 ≤ maxFiles.toNat ∨ 2 ^ 63 ≤ maxBytes.toNat) ∨ IsOver maxFiles maxBytes fs := by
  by_cases hf : 2 ^ 63 ≤ maxFiles.toNat
  · have hneg := signedBudget_neg hf
    exact iff_of_true (.inl (by omega)) (.inl (.inl hf))
  · by_cases hb : 2 ^ 63 ≤ maxBytes.toNat
    · have hneg := signedBudget_neg hb
      exact iff_of_true (.inr (by omega)) (.inl (.inr hb))
    · rw [exceeds_iff (Nat.lt_of_not_le hf) (Nat.lt_of_not_le hb), IsOver]
      omega

namespace Evicts

variable {maxFiles maxBytes : UInt64} {policy : Policy} {protect : String}
  {fs victims left : List File}

/-- Nothing is evicted exactly when there is nothing to evict or no limit is exceeded. -/
theorem victims_eq_nil_iff (h : Evicts maxFiles maxBytes policy protect fs victims left)
    (hne : fs ≠ []) : victims = [] ↔ ¬ Exceeds maxFiles maxBytes fs := by
  refine ⟨?_, h.victims_eq_nil⟩
  rintro rfl
  cases h with
  | within hx => exact hx
  | exhausted => exact absurd rfl hne

/-- A pass under limits that every list exceeds ends with no file left. -/
theorem left_eq_nil (h : Evicts maxFiles maxBytes policy protect fs victims left)
    (hx : ∀ gs, Exceeds maxFiles maxBytes gs) : left = [] := by
  induction h with
  | within hn => exact absurd (hx _) hn
  | exhausted => rfl
  | evict _ _ _ ih => exact ih

end Evicts

/-- Only a stored file is written to. -/
theorem Effect.ne_nil_of_evicted {s : Store} {fs peak gs victims : List File} {op : Operation}
    (h : Effect s fs op (.evicted victims) peak gs) : peak ≠ [] := by
  cases h with
  | replaced hf | appended hf => exact List.ne_nil_of_mem (List.mem_map_of_mem hf)

namespace Store

/-- Whatever the limits, the policy, its dice and the buckets: a write or an append evicts nothing
exactly when both limits are below `2 ^ 63` and the files with the new contents are within them.
Where a limit is `2 ^ 63` or more, every file is evicted, the written one too. -/
theorem edit_evicts_nothing_iff (maxFiles maxBytes : UInt64) (placement : Placement)
    (policy : Policy) (dice : Dice) (before : List Operation) {op : Operation} {path : String}
    {change : Bytes → Bytes} {victims : List File} (hop : op.edit? = some (path, change)) :
    let s := ((empty maxFiles maxBytes placement policy dice).run before).2
    let t := (s.perform op).2
    let updated := s.files.map (File.changedAt path (File.edited change))
    (s.perform op).1 = .evicted victims →
      (victims = [] ↔ (maxFiles.toNat < 2 ^ 63 ∧ maxBytes.toNat < 2 ^ 63) ∧
        ¬ IsOver maxFiles maxBytes updated) ∧
      (2 ^ 63 ≤ maxFiles.toNat ∨ 2 ^ 63 ≤ maxBytes.toNat →
        victims.Perm updated ∧ t.files = []) := by
  intro s t updated ha
  obtain ⟨fs, hs⟩ := (tracks_empty maxFiles maxBytes placement policy dice).run before
  obtain ⟨peak, gs, hp⟩ := hs.perform op
  have hss := (tracks_empty maxFiles maxBytes placement policy dice).sameSettings_run before
  have he := hp.effect
  rw [ha] at he
  have hne := he.ne_nil_of_evicted
  have hall := he.victims_append_perm hs.nodup
  obtain ⟨rfl, hev⟩ := he.of_edit? hop
  have hperm : updated.Perm (fs.map (File.changedAt path (File.edited change))) :=
    hs.files_perm.map _
  rw [hss.maxFiles_eq, hss.maxBytes_eq] at hev
  change Evicts maxFiles maxBytes _ _ _ _ _ at hev
  constructor
  · rw [hev.victims_eq_nil_iff hne, exceeds_iff_or_isOver, ← isOver_of_perm hperm, not_or, not_or,
      Nat.not_le, Nat.not_le]
  · intro hlimit
    obtain rfl := hev.left_eq_nil fun _ => (exceeds_iff_or_isOver ..).mpr (.inl hlimit)
    rw [List.append_nil] at hall
    exact ⟨hall.trans hperm.symm, List.perm_nil.mp hp.tracks.files_perm⟩

/-- One file of two bytes is evicted where ten files and all the bytes that a word can count are
allowed. -/
theorem replace_under_largest_limit :
    (((empty 10 18446744073709551615 ⟨2, fun path => Fin.ofNat 2 path.length⟩ .fifo).run
      [.create "a" ⟨1⟩ false]).2.perform (.replace "a" ⟨1⟩ [1, 2])).1 =
      .evicted [⟨"a", [1, 2], true, none, 0⟩] := by
  with_unfolding_all rfl

theorem edit_evicts_nothing_iff_largest :
    let s := ((empty 10 18446744073709551615 ⟨2, fun path => Fin.ofNat 2 path.length⟩ .fifo).run
      [.create "a" ⟨1⟩ false]).2
    let op : Operation := .replace "a" ⟨1⟩ [1, 2]
    let a : File := ⟨"a", [1, 2], true, none, 0⟩
    op.edit? = some ("a", fun _ => [1, 2]) ∧ (s.perform op).1 = .evicted [a] ∧
      [a].Perm (s.files.map (File.changedAt "a" (File.edited fun _ => [1, 2]))) ∧
      (s.perform op).2.files = [] :=
  ⟨rfl, replace_under_largest_limit,
    (edit_evicts_nothing_iff 10 18446744073709551615 _ _ _ _ rfl replace_under_largest_limit).2
      (.inr (by decide))⟩

/-- Files within both limits as they are given may be evicted all the same. -/
theorem evicts_within_largest_limit :
    ¬ ∀ (maxFiles maxBytes : UInt64) (placement : Placement) (policy : Policy) (dice : Dice)
      (before : List Operation) (op : Operation) (path : String) (change : Bytes → Bytes)
      (victims : List File), op.edit? = some (path, change) →
      let s := ((empty maxFiles maxBytes placement policy dice).run before).2
      (s.perform op).1 = .evicted victims →
        ¬ IsOver maxFiles maxBytes (s.files.map (File.changedAt path (File.edited change))) →
          victims = [] := by
  intro h
  have hwithin : ¬ IsOver 10 18446744073709551615
      (((empty 10 18446744073709551615 ⟨2, fun path => Fin.ofNat 2 path.length⟩ .fifo).run
        [.create "a" ⟨1⟩ false]).2.files.map
          (File.changedAt "a" (File.edited fun _ => [1, 2]))) := by
    unfold IsOver
    decide +kernel
  cases h _ _ _ _ _ _ _ _ _ _ rfl replace_under_largest_limit hwithin

end Store

end FileDepot
