import FileDepot.Proofs.Store.Budget
import FileDepot.Proofs.Store.Conservation
import FileDepot.Proofs.Store.Exclusion
import FileDepot.Proofs.Store.Layout

/-! # One victim at a time

What a policy takes out when it is asked for one file. First in, first out takes the oldest file
there is besides the protected one, and the tickets of all files left stay in line. The segmented
policy takes the newest one of some bucket, and gives up only when there is none in any. -/

namespace FileDepot

/-! ## Where victims are asked for -/

namespace Store

/-- The stores that come up as operations are performed: those before and after an operation, the
one that an eviction pass starts from, and those after each of its victims. Victims may be dropped
at any time here, so the rules allow for more stores than passes lead to. -/
inductive Meets (start : Store) : Store → Prop where
  | start : Meets start start
  | performed {s} (op : Operation) : Meets start s → Meets start (s.perform op).2
  | grown {s op path t} : Meets start s → s.Passes op path t → Meets start t
  | dropped {s protect f t} : Meets start s → s.takeVictim protect = (some f, t) →
      Meets start (t.dropped f)

variable {s start t : Store} {fs : List File}

theorem Meets.run (h : start.Meets s) (ops : List Operation) : start.Meets (s.run ops).2 := by
  induction ops generalizing s with
  | nil => exact h
  | cons op ops ih => exact ih (h.performed op)

theorem Passes.tracks {op : Operation} {path : String} (h : s.Passes op path t)
    (hs : s.Tracks fs) : (∃ gs, t.Tracks gs) ∧ s.SameSettings t := by
  cases h with
  | replaced hf => exact ⟨⟨_, hs.grown (hs.mem_of_find? hf).1 _⟩, sameSettings_modify_count ..⟩
  | appended hf => exact ⟨⟨_, hs.grown (hs.mem_of_find? hf).1 _⟩, sameSettings_modify_count ..⟩

theorem Meets.tracks (h : start.Meets s) (hs : start.Tracks fs) :
    (∃ gs, s.Tracks gs) ∧ start.SameSettings s := by
  induction h with
  | start => exact ⟨⟨fs, hs⟩, .refl start⟩
  | performed op _ ih =>
      obtain ⟨⟨us, hu⟩, hss⟩ := ih
      obtain ⟨peak, gs, hp⟩ := hu.perform op
      exact ⟨⟨gs, hp.tracks⟩, hss.trans hp.sameSettings⟩
  | grown _ hp ih =>
      obtain ⟨⟨us, hu⟩, hss⟩ := ih
      exact (hp.tracks hu).imp_right hss.trans
  | dropped _ ht ih =>
      obtain ⟨⟨us, hu⟩, hss⟩ := ih
      obtain ⟨-, hd, hsd, -⟩ := hu.round ht
      exact ⟨⟨_, hd⟩, hss.trans hsd⟩

end Store

/-! ## First in, first out -/

/-- The file of the lowest generation among those that are not protected. -/
structure IsOldest (protect : String) (fs : List File) (f : File) : Prop where
  mem : f ∈ fs
  path_ne : f.path ≠ protect
  le : ∀ g ∈ fs, g.path ≠ protect → f.generation ≤ g.generation

theorem isOldest_of_perm {protect : String} {fs gs : List File} (h : fs.Perm gs) {f : File}
    (hf : IsOldest protect fs f) : IsOldest protect gs f :=
  ⟨h.mem_iff.mp hf.mem, hf.path_ne, fun g hg => hf.le g (h.mem_iff.mpr hg)⟩

/-- The first unprotected file of a list in the order of creation is the oldest one. -/
theorem isOldest_of_oldestVictim? {protect : String} {fs : List File} {f : File}
    (hi : fs.Pairwise (·.generation < ·.generation)) (hp : f.path ≠ protect)
    (hf : oldestVictim? protect fs = some f) : IsOldest protect fs f := by
  have hm := mayGo_of_oldestVictim? hf
  refine ⟨hm.1, hp, fun g hg hgp => ?_⟩
  have hfind : fs.find? (·.path ≠ protect) = some f := by
    rcases Option.or_eq_some_iff.mp hf with hfind | ⟨hnone, -⟩
    · exact hfind
    · exact absurd hp (by simpa using List.find?_eq_none.mp hnone f hm.1)
  obtain ⟨-, older, newer, rfl, holder⟩ := List.find?_eq_some_iff_append.mp hfind
  rcases List.mem_append.mp hg with hg | hg
  · exact absurd hgp (by simpa using holder g hg)
  · rcases List.mem_cons.mp hg with rfl | hg
    · exact Nat.le_refl _
    · exact Nat.le_of_lt (List.rel_of_pairwise_cons (List.pairwise_append.mp hi).2.1 hg)

/-- Whether or not a victim is found, the list is left without it. -/
theorem Chooser.left_of_chosen {c c' : Chooser} {protect : String} {bs rest : Buckets}
    {fs : List File} {next : Nat} {victim : Option File}
    (h : Chosen c protect bs fs next victim c' rest) (hh : bs.Holds fs)
    (hn : (fs.map File.path).Nodup) :
    rest.Holds (fs.filter (some · ≠ victim)) ∧
      c'.Covers (fs.filter (some · ≠ victim)) next := by
  cases victim with
  | none =>
      obtain ⟨rfl, hc, -⟩ := h.none rfl
      rw [List.filter_eq_self.mpr (by simp)]
      exact ⟨hh, hc⟩
  | some f =>
      obtain ⟨-, hp, hr, hc⟩ := h.some f rfl
      have hf : fs.filter (·.path ≠ f.path) = fs.filter (some · ≠ some f) :=
        (File.filter_path_ne_eq hn hp.mayGo.1).trans (List.filter_congr fun g _ => by simp)
      rw [← hf]
      exact ⟨hr, hc⟩

/-- A search drops no ticket but the stale ones it passes and the one it redeems. -/
theorem Chooser.Searched.filter_eq {protect : String} {bs rest : Buckets} {fs : List File}
    {queue left : List Ticket} {victim : Option File} (hh : bs.Holds fs)
    (hn : (fs.map File.path).Nodup) (h : Searched protect bs queue victim left rest)
    {keep : Ticket → Bool} (hstale : ∀ t, keep t → t.path ≠ protect → ¬ Stale bs t)
    (hv : ∀ f, victim = some f → keep f.ticket = false) :
    left.filter keep = queue.filter keep := by
  have hpassed : ∀ ts : List Ticket, (∀ t ∈ ts, t.path ≠ protect → Stale bs t) →
      (ts.filter (·.path = protect)).filter keep = ts.filter keep := by
    intro ts hts
    rw [List.filter_filter]
    refine List.filter_congr fun t ht => ?_
    by_cases hp : t.path = protect
    · simp [hp]
    · cases hk : keep t with
      | false => rfl
      | true => exact absurd (hts t ht hp) (hstale t hk hp)
  cases h with
  | exhausted hq => exact hpassed queue hq
  | redeemed hfront _ ht hg =>
      obtain ⟨-, hfp, -, -⟩ := hh.of_take? hn ht
      have hft := hv _ rfl
      rw [File.ticket, hfp, hg] at hft
      rw [List.filter_append, List.filter_append, hpassed _ hfront,
        List.filter_cons_of_neg (by simpa using hft)]

/-- The ticket redeemed is the victim's, and none before it is that of a file that could go. -/
theorem Chooser.Searched.own_ticket {protect : String} {bs rest : Buckets} {fs : List File}
    {queue left : List Ticket} {f : File} (hh : bs.Holds fs) (hn : (fs.map File.path).Nodup)
    (h : Searched protect bs queue (some f) left rest) :
    ∃ front back, queue = front ++ f.ticket :: back ∧
      left = front.filter (·.path = protect) ++ back ∧
      ∀ t ∈ front, t.path ≠ protect → ∀ g ∈ fs, g.ticket ≠ t := by
  cases h with
  | @redeemed front t back f _ hfront _ ht hg =>
      obtain ⟨-, hfp, -, -⟩ := hh.of_take? hn ht
      have hft : f.ticket = t := by simp [File.ticket, hfp, hg]
      exact ⟨front, back, by rw [hft], rfl, fun u hu hp => (hfront u hu hp).ticket_ne hh hn⟩

namespace Store

/-- One file is taken out of a store in its turn, if there is one: the oldest unprotected one, which
goes by its own ticket and not by a stale one of its path. No other file is touched, and all files
left keep their tickets in the order in which they stood, as do the tickets of the protected path. -/
structure TakesInTurn (protect : String) (s : Store) (queue : List Ticket) (victim : Option File)
    (left : List Ticket) (rest : Buckets) : Prop where
  oldest : ∀ f, victim = some f ↔ IsOldest protect s.files f
  none_iff : victim = none ↔ ∀ f ∈ s.files, f.path = protect
  placement_eq : rest.placement = s.buckets.placement
  others : rest.chains.toList.map (fun b => b.toList) =
    s.buckets.chains.toList.map fun b => b.toList.filter (some · ≠ victim)
  queued : ∀ f ∈ rest.files, f.ticket ∈ left
  in_line : left.filter (fun t => t.path = protect ∨ t ∈ rest.files.map File.ticket) =
    queue.filter fun t => t.path = protect ∨ t ∈ rest.files.map File.ticket
  own_ticket : ∀ f, victim = some f → ∃ front back, queue = front ++ f.ticket :: back ∧
    left = front.filter (·.path = protect) ++ back ∧
    ∀ t ∈ front, t.path ≠ protect → ∀ g ∈ s.files, g.ticket ≠ t

variable {s : Store} {fs : List File}

/-- The one unprotected file that is not newer than any other. -/
theorem Keeps.eq_of_isOldest {protect : String} (h : s.Keeps fs) {f g : File}
    (hf : IsOldest protect fs f) (hg : IsOldest protect fs g) : f = g :=
  h.eq_of_generation_eq hf.mem hg.mem
    (Nat.le_antisymm (hf.le g hg.mem hg.path_ne) (hg.le f hf.mem hf.path_ne))

section

variable {protect : String} {queue left : List Ticket} {victim : Option File} {rest : Buckets}

/-- The victim of a search is the oldest file that is not protected. -/
theorem Keeps.victim_eq_some_iff (h : s.Keeps fs)
    (hc : Chooser.Chosen (.fifo queue) protect s.buckets fs s.nextGeneration victim (.fifo left) rest)
    (f : File) : victim = some f ↔ IsOldest protect fs f := by
  have hold : ∀ f, victim = some f → IsOldest protect fs f := fun f hf =>
    have ⟨hp, hpick, _⟩ := hc.some f hf
    isOldest_of_oldestVictim? h.increasing hp hpick
  refine ⟨hold f, fun hf => ?_⟩
  cases hv : victim with
  | none => exact absurd ((hc.none hv).2.2 f hf.mem) hf.path_ne
  | some g => rw [h.eq_of_isOldest (hold g hv) hf]

/-- No ticket of a file left is lost or overtaken, and none of the protected path. -/
theorem Keeps.in_line (h : s.Keeps fs)
    (hr : Chooser.Searched protect s.buckets queue victim left rest)
    (hv : ∀ f, victim = some f → f ∈ fs ∧ f.path ≠ protect)
    (hrest : rest.Holds (fs.filter (some · ≠ victim))) :
    left.filter (fun t => t.path = protect ∨ t ∈ rest.files.map File.ticket) =
      queue.filter fun t => t.path = protect ∨ t ∈ rest.files.map File.ticket := by
  have hmem : ∀ f, f ∈ rest.files ↔ f ∈ fs ∧ some f ≠ victim := fun f => by
    simp [hrest.files_perm.mem_iff]
  refine hr.filter_eq h.holds h.nodup (fun t ht hp hstale => ?_) fun f hf => ?_
  · obtain ⟨f, hf, rfl⟩ : ∃ f ∈ rest.files, f.ticket = t := by simpa [hp] using ht
    exact hstale.ticket_ne h.holds h.nodup f ((hmem f).mp hf).1 rfl
  · obtain ⟨hfm, hfp⟩ := hv f hf
    have hgone : ∀ g ∈ rest.files, g.ticket ≠ f.ticket := fun g hg he => by
      obtain ⟨hg, hgv⟩ := (hmem g).mp hg
      have hgf := File.eq_of_path_eq h.nodup hg hfm (congrArg Ticket.path he)
      exact hgv (hgf ▸ hf.symm)
    simpa [hfp, File.ticket] using hgone

/-- A search by the rules takes a victim in its turn. -/
theorem Keeps.takesInTurn (h : s.Keeps fs) (hs : s.chooser = .fifo queue)
    (hr : Chooser.Searched protect s.buckets queue victim left rest) :
    TakesInTurn protect s queue victim left rest := by
  have hq : Queued queue fs s.nextGeneration := by
    have hc := h.covers
    rwa [hs] at hc
  have hc := Chooser.chosen_of_searched h.holds h.nodup hq hr
  obtain ⟨hrest, hleft⟩ := Chooser.left_of_chosen hc h.holds h.nodup
  have hv := h.victim_eq_some_iff hc
  have hperm := h.files_perm
  refine ⟨fun f => ?_, ⟨fun hnone f hf => ?_, fun hall => ?_⟩, hc.placement_eq, ?_, fun f hf => ?_,
    ?_, fun f hf => ?_⟩
  · exact (hv f).trans ⟨isOldest_of_perm hperm.symm, isOldest_of_perm hperm⟩
  · exact (hc.none hnone).2.2 f (hperm.mem_iff.mp hf)
  · refine Option.eq_none_iff_forall_ne_some.mpr fun f hf => ?_
    have ho := (hv f).mp hf
    exact ho.path_ne (hall f (hperm.mem_iff.mpr ho.mem))
  · exact h.holds.map_chains_congr hrest hc.placement_eq (List.filter (some · ≠ victim)) id
      fun i => Placement.share_filter _ _ fs i
  · exact Queued.ticket_mem hleft (hrest.files_perm.mem_iff.mp hf)
  · exact h.in_line hr (fun f hf => ⟨((hv f).mp hf).mem, ((hv f).mp hf).path_ne⟩) hrest
  · subst hf
    obtain ⟨front, back, hqueue, hback, hfront⟩ := hr.own_ticket h.holds h.nodup
    exact ⟨front, back, hqueue, hback, fun t ht hp g hg =>
      hfront t ht hp g (hperm.mem_iff.mp hg)⟩

end

/-- Whatever is created, removed, written and evicted, and also amid an eviction pass: first in,
first out takes the oldest file besides the protected one, or none where there is none, and every
other file keeps its place in its bucket and in the queue. -/
theorem fifo_takes_oldest (maxFiles maxBytes : UInt64) (placement : Placement) (dice : Dice)
    {s : Store} (h : (empty maxFiles maxBytes placement .fifo dice).Meets s) (protect : String) :
    ∃ queue victim left rest, s.chooser = .fifo queue ∧
      s.chooser.choose s.buckets protect = (victim, .fifo left, rest) ∧
      TakesInTurn protect s queue victim left rest := by
  obtain ⟨⟨fs, hs⟩, hss⟩ := h.tracks (tracks_empty maxFiles maxBytes placement .fifo dice)
  cases hc : s.chooser with
  | segmented d => exact absurd (hc ▸ hss.policy_eq) (by simp [empty, Chooser.start, Chooser.policy])
  | fifo queue =>
      exact ⟨queue, _, _, _, rfl, rfl,
        hs.toKeeps.takesInTurn hc (Chooser.searched_takeFirst protect queue s.buckets)⟩

/-- The path created anew goes by its second ticket, after the protected file has been passed. -/
theorem fifo_takes_oldest_created_anew :
    let ops : List Operation := [.create "a" ⟨1⟩ false, .create "b" ⟨1⟩ false, .remove "a" ⟨1⟩,
      .create "a" ⟨2⟩ false, .create "c" ⟨2⟩ false]
    let s := ((empty 3 9 ⟨2, fun path => Fin.ofNat 2 path.length⟩ .fifo).run ops).2
    (s.chooser.choose s.buckets "b").1 = some ⟨"a", [], true, none, 2⟩ ∧
      (s.chooser.choose s.buckets "b").2.1 = .fifo [⟨"b", 1⟩, ⟨"c", 3⟩] ∧
      ∃ queue victim left rest, s.chooser = .fifo queue ∧
        s.chooser.choose s.buckets "b" = (victim, .fifo left, rest) ∧
        TakesInTurn "b" s queue victim left rest :=
  ⟨by with_unfolding_all rfl, by with_unfolding_all rfl,
    fifo_takes_oldest 3 9 _ _ (.run .start _) "b"⟩

end Store

/-! ## Segmented -/

/-- A file is taken out of a bucket in which all newer files are protected, itself not being so;
nothing else is. Where the bucket is in the order of creation, the generation tells the same. -/
structure TakesNewest (protect : String) (bs : Buckets) (f : File) (rest : Buckets)
    (i : Fin bs.placement.count) (older newer : List File) : Prop where
  path_ne : f.path ≠ protect
  toList_eq : (bs.chains.get i).toList = older ++ f :: newer
  spared : ∀ g ∈ newer, g.path = protect
  newest : (bs.chains.get i).toList.Pairwise (·.generation < ·.generation) →
    ∀ g ∈ (bs.chains.get i).toList, g.path ≠ protect → g.generation ≤ f.generation
  placement_eq : rest.placement = bs.placement
  others : rest.chains.toList.map (fun b => b.toList) =
    (bs.chains.toList.map fun b => b.toList).set i (older ++ newer)

namespace Buckets

variable {bs rest : Buckets} {protect : String} {f : File}

theorem takesNewest_of_takeNewest? {i : Fin bs.placement.count}
    (h : bs.takeNewest? protect i = some (f, rest)) :
    ∃ older newer, TakesNewest protect bs f rest i older newer := by
  obtain ⟨cell, older, newer, hs, hp, hnewer, rfl⟩ := takeNewest?_eq_some h
  refine ⟨older, newer, hp, hs.toList_eq, hnewer, fun hi g hg hgp => ?_, rfl, ?_⟩
  · rw [hs.toList_eq] at hi hg
    rcases List.mem_append.mp hg with hg | hg
    · exact Nat.le_of_lt ((List.pairwise_append.mp hi).2.2 g hg f List.mem_cons_self)
    · rcases List.mem_cons.mp hg with rfl | hg
      · exact Nat.le_refl _
      · exact absurd (hnewer g hg) hgp
  · rw [map_chains_setBucket, hs.toList_detach]

end Buckets

/-- Whatever the buckets hold and whatever the dice throw: the segmented policy takes the newest
unprotected file of some bucket and touches no other file, or leaves all as it is when every file
is protected. -/
theorem Chooser.segmented_takes_newest (bs : Buckets) (protect : String) (dice : Dice) :
    let victim := ((segmented dice).choose bs protect).1
    let rest := ((segmented dice).choose bs protect).2.2
    (victim = none ↔ ∀ f ∈ bs.files, f.path = protect) ∧ (victim = none → rest = bs) ∧
      ∀ f, victim = some f → ∃ i older newer, TakesNewest protect bs f rest i older newer := by
  simp only [choose]
  cases ht : (takeScattered protect bs picks dice).1 with
  | none => exact ⟨⟨fun _ => path_eq_of_takeScattered ht, fun _ => rfl⟩, fun _ => rfl, by simp⟩
  | some taken =>
      obtain ⟨i, hi⟩ := exists_of_takeScattered ht
      obtain ⟨older, newer, hn⟩ := Buckets.takesNewest_of_takeNewest? hi
      have hm : taken.1 ∈ bs.files := Buckets.mem_files_iff.mpr ⟨i, by simp [hn.toList_eq]⟩
      refine ⟨⟨by simp, fun hall => absurd (hall _ hm) hn.path_ne⟩, by simp, fun f hf => ?_⟩
      obtain rfl : taken.1 = f := Option.some.inj hf
      exact ⟨i, older, newer, hn⟩

end FileDepot
