import FileDepot.Proofs.Store.Conservation

/-! # Evictions stop as soon as they can

A pass evicts a file only while the files that are left are over a budget, so no shorter pass would
have done. The file whose growth made room necessary goes last, when no other is left, and only
where it is over a budget by itself. -/

namespace FileDepot

/-- Whether some files are more, or have more bytes, than their budget. -/
def IsOver (maxFiles maxBytes : UInt64) (fs : List File) : Prop :=
  maxFiles.toNat < fs.length ∨ maxBytes.toNat < bytesOf fs

theorem isOver_of_perm {maxFiles maxBytes : UInt64} {fs gs : List File} (h : fs.Perm gs) :
    IsOver maxFiles maxBytes fs ↔ IsOver maxFiles maxBytes gs := by
  rw [IsOver, IsOver, h.length_eq, bytesOf_eq_of_perm h]

namespace Evicts

variable {maxFiles maxBytes : UInt64} {policy : Policy} {protect : String}
  {fs victims left : List File}

/-- Nothing is evicted from a list within its budgets. -/
theorem victims_eq_nil (h : Evicts maxFiles maxBytes policy protect fs victims left)
    (hx : ¬ Exceeds maxFiles maxBytes fs) : victims = [] := by
  cases h with
  | within | exhausted => rfl
  | evict ho => exact absurd ho hx

/-- As long as there is a file still to be evicted, the list without those evicted before exceeds
a budget. -/
theorem exceeds_of_prefix (h : Evicts maxFiles maxBytes policy protect fs victims left)
    (hn : (fs.map File.path).Nodup) {gone : List File} (hg : gone <+: victims)
    (hne : gone ≠ victims) : Exceeds maxFiles maxBytes (fs.filter (· ∉ gone)) := by
  induction h generalizing gone with
  | within | exhausted => exact absurd (List.prefix_nil.mp hg) hne
  | @evict fs f victims left ho hp _ ih =>
      cases gone with
      | nil => simpa using ho
      | cons g gone =>
          obtain ⟨rfl, hgone⟩ := List.cons_prefix_cons.mp hg
          have hrest : fs.filter (· ∉ g :: gone) =
              (fs.filter (·.path ≠ g.path)).filter (· ∉ gone) := by
            rw [File.filter_path_ne_eq hn hp.mayGo.1, List.filter_filter]
            exact List.filter_congr fun k _ => by simp [Bool.and_comm]
          rw [hrest]
          exact ih (hn.sublist (List.filter_sublist.map _)) hgone fun he => hne (by rw [he])

/-- A file evicted under the protected path is the last one: it goes alone, and because it exceeds
a budget alone. -/
theorem eq_concat_of_protected (h : Evicts maxFiles maxBytes policy protect fs victims left)
    (hn : (fs.map File.path).Nodup) {f : File} (hf : f ∈ victims) (hp : f.path = protect) :
    ∃ others, victims = others ++ [f] ∧ (∀ g ∈ others, g.path ≠ protect) ∧ left = [] ∧
      Exceeds maxFiles maxBytes [f] := by
  induction h with
  | within | exhausted => simp at hf
  | @evict fs g victims left ho hpick hrest ih =>
      by_cases hg : g.path = protect
      · -- The policy picks the protected path only where nothing else is left.
        have hnil : fs.filter (·.path ≠ g.path) = [] := List.filter_eq_nil_iff.mpr fun k hk => by
          simp [hpick.mayGo.2 hg k hk, hg]
        obtain ⟨older, newer, rfl⟩ := List.append_of_mem hpick.mayGo.1
        rw [hnil] at hrest
        rw [File.filter_path_ne_of_nodup hn] at hnil
        obtain ⟨rfl, rfl⟩ := List.append_eq_nil_iff.mp hnil
        have hleft : left = [] := List.sublist_nil.mp hrest.left_sublist
        have hvictims : victims = [] := by
          have hp := hrest.victims_append_perm (by simp)
          rw [hleft, List.append_nil] at hp
          exact List.perm_nil.mp hp
        subst hvictims hleft
        obtain rfl := List.mem_singleton.mp hf
        exact ⟨[], rfl, by simp, rfl, ho⟩
      · have hf : f ∈ victims := (List.mem_cons.mp hf).resolve_left fun he => hg (he ▸ hp)
        obtain ⟨others, rfl, ho, hl, hx⟩ := ih (hn.sublist (List.filter_sublist.map _)) hf
        exact ⟨g :: others, rfl, List.forall_mem_cons.mpr ⟨hg, ho⟩, hl, hx⟩

end Evicts

namespace Store

/-- Whatever the policy, its dice and the buckets: a write or an append that leaves the files within
both budgets evicts none; else the files are over a budget still when any fewer of the evicted have
been taken out. The written file is evicted last, after all others, and only where no file is
allowed or its own bytes are over their budget. -/
theorem edit_evicts_least (maxFiles maxBytes : UInt64) (hf : maxFiles.toNat < 2 ^ 63)
    (hb : maxBytes.toNat < 2 ^ 63) (placement : Placement) (policy : Policy) (dice : Dice)
    (before : List Operation) {op : Operation} {path : String} {change : Bytes → Bytes}
    {victims : List File} (hop : op.edit? = some (path, change)) :
    let s := ((empty maxFiles maxBytes placement policy dice).run before).2
    let t := (s.perform op).2
    let updated := s.files.map (File.changedAt path (File.edited change))
    (s.perform op).1 = .evicted victims →
      (¬ IsOver maxFiles maxBytes updated → victims = []) ∧
      (∀ gone, gone <+: victims → gone ≠ victims →
        IsOver maxFiles maxBytes (updated.filter (· ∉ gone))) ∧
      ∀ f ∈ victims, f.path = path → ∃ others, victims = others ++ [f] ∧
        (∀ g ∈ updated, g.path ≠ path ↔ g ∈ others) ∧ t.files = [] ∧
        (maxFiles = 0 ∨ maxBytes.toNat < f.size) := by
  intro s t updated ha
  obtain ⟨fs, hs⟩ := (tracks_empty maxFiles maxBytes placement policy dice).run before
  obtain ⟨peak, gs, hp⟩ := hs.perform op
  have hss := (tracks_empty maxFiles maxBytes placement policy dice).sameSettings_run before
  have he := hp.effect
  rw [ha] at he
  obtain ⟨rfl, hev⟩ := he.of_edit? hop
  have hn : ((fs.map (File.changedAt path (File.edited change))).map File.path).Nodup :=
    File.nodup_changedAt_edited hs.nodup _ _
  have hperm : updated.Perm (fs.map (File.changedAt path (File.edited change))) :=
    hs.files_perm.map _
  rw [hss.maxFiles_eq, hss.maxBytes_eq] at hev
  refine ⟨?_, ?_, ?_⟩
  · intro hwithin
    refine hev.victims_eq_nil fun hx => hwithin ?_
    exact (isOver_of_perm hperm).mpr ((exceeds_iff hf hb _).mp hx)
  · intro gone hg hne
    rw [isOver_of_perm (hperm.filter _)]
    exact (exceeds_iff hf hb _).mp (hev.exceeds_of_prefix hn hg hne)
  · intro f hfm hfp
    obtain ⟨others, rfl, ho, rfl, hx⟩ := hev.eq_concat_of_protected hn hfm hfp
    have hall := hev.victims_append_perm hn
    rw [List.append_nil] at hall
    refine ⟨others, rfl, ?_, List.perm_nil.mp hp.tracks.files_perm, ?_⟩
    · intro g hg
      have hm := hall.mem_iff.mpr (hperm.mem_iff.mp hg)
      constructor
      · intro hne
        exact (List.mem_append.mp hm).resolve_right fun hl => hne (List.mem_singleton.mp hl ▸ hfp)
      · exact ho g
    · refine ((exceeds_iff hf hb [f]).mp hx).imp (fun hlt => ?_) fun hlt => ?_
      · exact UInt64.toNat_inj.mp (Nat.lt_one_iff.mp hlt)
      · simpa [bytesOf] using hlt

/-- A file that grows over the bytes' budget goes itself, and another client's locked one before it;
taking out that one alone would not have done. -/
theorem edit_evicts_least_itself :
    let before : List Operation := [.create "a" ⟨1⟩ true, .append "a" ⟨1⟩ [1, 2],
      .create "b" ⟨2⟩ false]
    let s := ((empty 2 3 ⟨2, fun path => Fin.ofNat 2 path.length⟩ .segmentedFifo
      ⟨fun n => 7 * n, 0⟩).run before).2
    let a : File := ⟨"a", [1, 2], true, some ⟨1⟩, 0⟩
    let b : File := ⟨"b", [3, 4, 5, 6], true, none, 1⟩
    let op : Operation := .replace "b" ⟨2⟩ [3, 4, 5, 6]
    (s.perform op).1 = .evicted [a, b] ∧
      IsOver 2 3 ((s.files.map (File.changedAt "b" (File.edited fun _ => [3, 4, 5, 6]))).filter
        (· ∉ [a])) ∧
      ∃ others, [a, b] = others ++ [b] ∧ (s.perform op).2.files = [] := by
  have ha : (((empty 2 3 ⟨2, fun path => Fin.ofNat 2 path.length⟩ .segmentedFifo
      ⟨fun n => 7 * n, 0⟩).run [.create "a" ⟨1⟩ true, .append "a" ⟨1⟩ [1, 2],
        .create "b" ⟨2⟩ false]).2.perform (.replace "b" ⟨2⟩ [3, 4, 5, 6])).1 =
      .evicted [⟨"a", [1, 2], true, some ⟨1⟩, 0⟩, ⟨"b", [3, 4, 5, 6], true, none, 1⟩] := by
    with_unfolding_all rfl
  obtain ⟨-, hleast, hlast⟩ := edit_evicts_least 2 3 (by decide) (by decide) _ _ _ _ rfl ha
  obtain ⟨others, he, -, hf, -⟩ := hlast _ (List.mem_cons_of_mem _ (List.mem_singleton_self _)) rfl
  exact ⟨ha, hleast _ ⟨_, rfl⟩ (by simp), others, he, hf⟩

end Store

end FileDepot
