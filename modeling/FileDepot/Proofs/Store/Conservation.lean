import FileDepot.Proofs.Store.Run

/-! # Evictions lose nothing

The files evicted by a write or an append and the files left are those stored before it, with only
the contents of the written one changed. No file is lost, doubled or altered, and the files left
keep their order in every bucket. -/

namespace FileDepot

namespace Evicts

variable {maxFiles maxBytes : UInt64} {policy : Policy} {protect : String}
  {fs victims left : List File}

/-- The evicted files and those left are the files there were, each once. -/
theorem victims_append_perm (h : Evicts maxFiles maxBytes policy protect fs victims left)
    (hn : (fs.map File.path).Nodup) : (victims ++ left).Perm fs := by
  induction h with
  | within | exhausted => exact .refl _
  | @evict fs f victims left _ hp _ ih =>
      obtain ⟨older, newer, rfl⟩ := List.append_of_mem hp.mayGo.1
      have ih := ih (hn.sublist (List.filter_sublist.map _))
      rw [File.filter_path_ne_of_nodup hn] at ih
      exact (ih.cons f).trans List.perm_middle.symm

/-- The files left keep their order. -/
theorem left_eq_filter (h : Evicts maxFiles maxBytes policy protect fs victims left)
    (hn : (fs.map File.path).Nodup) : left = fs.filter (· ∉ victims) := by
  induction h with
  | within | exhausted => simp
  | @evict fs f victims left _ hp _ ih =>
      rw [ih (hn.sublist (List.filter_sublist.map _)), File.filter_path_ne_eq hn hp.mayGo.1,
        List.filter_filter]
      exact List.filter_congr fun g _ => by simp [Bool.and_comm]

end Evicts

/-- Whatever is read off the buckets one by one is read off their shares of the list. -/
theorem Buckets.Holds.map_chains_eq {α : Type} {bs : Buckets} {fs : List File} (h : bs.Holds fs)
    (view : List File → α) :
    bs.chains.toList.map (fun b => view b.toList) =
      (List.finRange bs.placement.count).map fun i => view (bs.placement.share fs i) := by
  rw [chains_toList, List.map_map]
  exact List.map_congr_left fun i _ => congrArg view (h i)

/-- Two sets of buckets of one placement are compared by comparing the shares of their lists. -/
theorem Buckets.Holds.map_chains_congr {α : Type} {bs cs : Buckets} {fs gs : List File}
    (h : bs.Holds fs) (hc : cs.Holds gs) (hp : cs.placement = bs.placement)
    (view view' : List File → α)
    (hv : ∀ i, view' (bs.placement.share gs i) = view (bs.placement.share fs i)) :
    cs.chains.toList.map (fun c => view' c.toList) =
      bs.chains.toList.map fun b => view b.toList := by
  rw [h.map_chains_eq, hc.map_chains_eq, hp]
  exact List.map_congr_left fun i _ => hv i

theorem File.path_changedAt_edited (path : String) (change : Bytes → Bytes) (f : File) :
    (changedAt path (edited change) f).path = f.path :=
  path_changedAt (fun _ => by rfl) f

theorem File.nodup_changedAt_edited {fs : List File} (hn : (fs.map path).Nodup) (path : String)
    (change : Bytes → Bytes) : ((fs.map (changedAt path (edited change))).map File.path).Nodup := by
  rwa [List.map_map, show File.path ∘ changedAt path (edited change) = File.path from
    funext (path_changedAt_edited path change)]

/-- The files handed over and those left are the list at its largest. -/
theorem Effect.victims_append_perm {s : Store} {fs peak gs : List File} {op : Operation}
    {answer : Answer} (h : Effect s fs op answer peak gs) (hn : (fs.map File.path).Nodup) :
    (answer.victims ++ gs).Perm peak := by
  cases h with
  | replaced _ _ he | appended _ _ he =>
      exact he.victims_append_perm (File.nodup_changedAt_edited hn _ _)
  | _ => exact .refl _

namespace Store

/-- Whatever the policy, its dice, the buckets and the limits: the files evicted by a write or an
append and the files left in the store are together the files stored before, with the contents of
the written one changed; each is there once, as it was. In each bucket the files left have kept
their order, and the evictions are counted. -/
theorem edit_loses_nothing (maxFiles maxBytes : UInt64) (placement : Placement) (policy : Policy)
    (dice : Dice) (before : List Operation) {op : Operation} {path : String}
    {change : Bytes → Bytes} {victims : List File} (hop : op.edit? = some (path, change)) :
    let s := ((empty maxFiles maxBytes placement policy dice).run before).2
    let t := (s.perform op).2
    let updated := File.changedAt path (File.edited change)
    (s.perform op).1 = .evicted victims →
      (victims ++ t.files).Perm (s.files.map updated) ∧
      ((victims ++ t.files).map File.path).Nodup ∧
      t.buckets.chains.toList.map (fun b => b.toList) =
        s.buckets.chains.toList.map (fun b => (b.toList.map updated).filter (· ∉ victims)) ∧
      t.stats.evictions = s.stats.evictions + victims.length := by
  intro s t updated ha
  obtain ⟨fs, hs⟩ := (tracks_empty maxFiles maxBytes placement policy dice).run before
  obtain ⟨peak, gs, hp⟩ := hs.perform op
  have he := hp.effect
  rw [ha] at he
  obtain ⟨rfl, hev⟩ := he.of_edit? hop
  have hn : ((fs.map updated).map File.path).Nodup := File.nodup_changedAt_edited hs.nodup _ _
  have hperm : (victims ++ t.files).Perm (fs.map updated) :=
    (hp.tracks.files_perm.append_left victims).trans (he.victims_append_perm hs.nodup)
  refine ⟨?_, ?_, ?_, ?_⟩
  · exact hperm.trans (hs.files_perm.map updated).symm
  · exact (hperm.map File.path).nodup_iff.mpr hn
  · have hshare : ∀ i, s.buckets.placement.share gs i =
        ((s.buckets.placement.share fs i).map updated).filter (· ∉ victims) := fun i => by
      rw [hev.left_eq_filter hn, Placement.share_filter,
        Placement.share_map _ (File.path_changedAt_edited path change)]
    refine (hp.tracks.holds.map_chains_eq id).trans (.trans ?_
      (hs.holds.map_chains_eq fun l => (l.map updated).filter (· ∉ victims)).symm)
    rw [hp.sameSettings.placement_eq]
    exact List.map_congr_left fun i _ => hshare i
  · have hv : (s.perform op).1.victims = victims := congrArg Answer.victims ha
    rw [stats, Totals.stats, stats, Totals.stats, hp.evictions_eq, hv]

/-- Room for one file is made by dropping another client's locked one, at a pick by the dice. -/
theorem edit_loses_nothing_two_buckets :
    let before : List Operation := [.create "a" ⟨1⟩ true, .append "a" ⟨1⟩ [1, 2],
      .create "b" ⟨2⟩ false]
    let s := ((empty 1 3 ⟨2, fun path => Fin.ofNat 2 path.length⟩ .segmentedFifo
      ⟨fun n => 7 * n, 0⟩).run before).2
    let victims : List File := [⟨"a", [1, 2], true, some ⟨1⟩, 0⟩]
    let op : Operation := .append "b" ⟨2⟩ [3, 4]
    (s.perform op).1 = .evicted victims ∧
      (victims ++ (s.perform op).2.files).Perm
        (s.files.map (File.changedAt "b" (File.edited (· ++ [3, 4])))) :=
  ⟨by with_unfolding_all rfl, (edit_loses_nothing 1 3 _ _ _ _ rfl (by with_unfolding_all rfl)).1⟩

end Store

end FileDepot
