import Mathlib.Data.List.Nodup
import FileDepot.Buckets
import FileDepot.Proofs.Chain.Order

/-! # Spreading a list of files over the buckets

Buckets hold a list of files when each bucket has, in the order of the list, the files whose path
belongs to it. Every operation on buckets then is an operation on the list. -/

namespace FileDepot

/-! ## Lists of files -/

namespace File

/-- Changes a file if it is stored under a given path. -/
def changedAt (path : String) (change : File → File) (f : File) : File :=
  if f.path = path then change f else f

theorem changedAt_of_eq {path : String} {change : File → File} {f : File} (h : f.path = path) :
    changedAt path change f = change f := by
  simp [changedAt, h]

theorem changedAt_of_ne {path : String} {change : File → File} {f : File} (h : f.path ≠ path) :
    changedAt path change f = f := by
  simp [changedAt, h]

theorem path_changedAt {path : String} {change : File → File}
    (hc : ∀ f, (change f).path = f.path) (f : File) : (changedAt path change f).path = f.path := by
  unfold changedAt
  split
  · exact hc f
  · rfl

/-- In a list without two files of one path, a file's path is not met before or after it. -/
theorem path_ne_of_nodup {older newer : List File} {f : File}
    (h : ((older ++ f :: newer).map File.path).Nodup) :
    (∀ g ∈ older, g.path ≠ f.path) ∧ ∀ g ∈ newer, g.path ≠ f.path := by
  rw [List.map_append, List.map_cons, List.nodup_append] at h
  obtain ⟨-, hn, hd⟩ := h
  constructor
  · intro g hg
    exact hd g.path (List.mem_map_of_mem hg) f.path (by simp)
  · intro g hg he
    exact (List.nodup_cons.mp hn).1 (he ▸ List.mem_map_of_mem hg)

theorem eq_of_path_eq {fs : List File} (hn : (fs.map File.path).Nodup) {f g : File}
    (hf : f ∈ fs) (hg : g ∈ fs) (he : f.path = g.path) : f = g :=
  List.inj_on_of_nodup_map hn hf hg he

theorem find?_path_eq_some {fs : List File} (hn : (fs.map File.path).Nodup) {f : File}
    (hf : f ∈ fs) : fs.find? (·.path = f.path) = some f := by
  cases hg : fs.find? (·.path = f.path) with
  | none => simpa using List.find?_eq_none.mp hg f hf
  | some g =>
      have hp : g.path = f.path := by simpa using List.find?_some hg
      rw [eq_of_path_eq hn (List.mem_of_find?_eq_some hg) hf hp]

theorem filter_path_ne_of_nodup {older newer : List File} {f : File}
    (h : ((older ++ f :: newer).map File.path).Nodup) :
    (older ++ f :: newer).filter (·.path ≠ f.path) = older ++ newer := by
  obtain ⟨ho, hn⟩ := path_ne_of_nodup h
  have hol : older.filter (·.path ≠ f.path) = older :=
    List.filter_eq_self.mpr fun g hg => by simpa using ho g hg
  have hnl : newer.filter (·.path ≠ f.path) = newer :=
    List.filter_eq_self.mpr fun g hg => by simpa using hn g hg
  rw [List.filter_append, List.filter_cons_of_neg (by simp), hol, hnl]

/-- A listed file is told from the others by its path. -/
theorem filter_path_ne_eq {fs : List File} (hn : (fs.map File.path).Nodup) {f : File}
    (hf : f ∈ fs) : fs.filter (·.path ≠ f.path) = fs.filter (· ≠ f) := by
  refine List.filter_congr fun g hg => ?_
  have he : g.path = f.path ↔ g = f := ⟨eq_of_path_eq hn hg hf, congrArg File.path⟩
  simp [he]

theorem map_changedAt_of_nodup {older newer : List File} {f : File} (change : File → File)
    (h : ((older ++ f :: newer).map File.path).Nodup) :
    (older ++ f :: newer).map (changedAt f.path change) = older ++ change f :: newer := by
  obtain ⟨ho, hn⟩ := path_ne_of_nodup h
  have hol : older.map (changedAt f.path change) = older :=
    (List.map_congr_left fun g hg => changedAt_of_ne (ho g hg)).trans (List.map_id older)
  have hnl : newer.map (changedAt f.path change) = newer :=
    (List.map_congr_left fun g hg => changedAt_of_ne (hn g hg)).trans (List.map_id newer)
  rw [List.map_append, List.map_cons, hol, hnl, changedAt_of_eq rfl]

end File

/-- Sorting a list into classes that cover it only rearranges the list. -/
theorem flatMap_filter_perm {α ι : Type} [DecidableEq ι] (g : α → ι) (classes : List ι)
    (hn : classes.Nodup) (xs : List α) (hc : ∀ x ∈ xs, g x ∈ classes) :
    (classes.flatMap fun i => xs.filter (g · = i)).Perm xs := by
  induction classes generalizing xs with
  | nil =>
      have hx : xs = [] := List.eq_nil_iff_forall_not_mem.mpr fun x hx => by simpa using hc x hx
      simp [hx]
  | cons i classes ih =>
      obtain ⟨hi, hn⟩ := List.nodup_cons.mp hn
      have hr : (classes.flatMap fun j => xs.filter (g · = j)) =
          classes.flatMap fun j => (xs.filter fun x => !decide (g x = i)).filter (g · = j) := by
        simp only [List.flatMap]
        congr 1
        apply List.map_congr_left
        intro j hj
        rw [List.filter_filter]
        apply List.filter_congr
        intro x _
        have hji : j ≠ i := fun he => hi (he ▸ hj)
        by_cases hx : g x = j <;> simp [hx, hji]
      rw [List.flatMap_cons, hr]
      have ht := ih hn (xs.filter fun x => !decide (g x = i)) (by
        intro x hx
        obtain ⟨hx, hne⟩ := List.mem_filter.mp hx
        rcases List.mem_cons.mp (hc x hx) with he | hm
        · simp [he] at hne
        · exact hm)
      exact (ht.append_left _).trans (List.filter_append_perm _ xs)

namespace Placement

/-! ## A bucket's share of a list -/

variable (p : Placement)

/-- The files of a list whose path belongs to a bucket. -/
def share (fs : List File) (i : Fin p.count) : List File :=
  fs.filter (p.place ·.path = i)

theorem mem_share {fs : List File} {i : Fin p.count} {f : File} :
    f ∈ p.share fs i ↔ f ∈ fs ∧ p.place f.path = i := by
  simp [share]

theorem share_append (fs gs : List File) (i : Fin p.count) :
    p.share (fs ++ gs) i = p.share fs i ++ p.share gs i :=
  List.filter_append ..

theorem share_map {change : File → File} (hc : ∀ f, (change f).path = f.path) (fs : List File)
    (i : Fin p.count) : p.share (fs.map change) i = (p.share fs i).map change := by
  rw [share, List.filter_map]
  congr 1
  apply List.filter_congr
  intro f _
  simp [hc]

theorem share_filter (keep : File → Bool) (fs : List File) (i : Fin p.count) :
    p.share (fs.filter keep) i = (p.share fs i).filter keep := by
  rw [share, share, List.filter_filter, List.filter_filter]
  exact List.filter_congr fun g _ => Bool.and_comm _ _

theorem nodup_share {fs : List File} (hn : (fs.map File.path).Nodup) (i : Fin p.count) :
    ((p.share fs i).map File.path).Nodup :=
  hn.sublist (List.filter_sublist.map _)

end Placement

namespace Buckets

/-! ## Buckets that hold a list -/

/-- Each bucket has its share of a list, in the order of the list. -/
def Holds (bs : Buckets) (fs : List File) : Prop :=
  ∀ i, (bs.chains.get i).toList = bs.placement.share fs i

theorem chains_toList (bs : Buckets) :
    bs.chains.toList = (List.finRange bs.placement.count).map bs.chains.get := by
  apply List.ext_getElem
  · simp
  · intro i h₁ h₂
    simp [Vector.get]

theorem holds_empty (placement : Placement) : (empty placement).Holds [] := by
  intro i
  simp [empty, Vector.get, Placement.share]

theorem get_setBucket (bs : Buckets) (i j : Fin bs.placement.count) (b : Bucket) :
    (bs.setBucket i b).chains.get j = if j = i then b else bs.chains.get j := by
  change (bs.chains.set i b)[(j : Nat)] = _
  rw [Vector.getElem_set]
  by_cases hj : j = i
  · simp [hj]
  · have hn : (i : Nat) ≠ j := fun he => hj (Fin.ext he.symm)
    simp only [hn, hj, if_false]
    rfl

@[simp] theorem placement_modify (bs : Buckets) (path : String) (change : File → File) :
    (bs.modify path change).placement = bs.placement := by
  unfold modify
  split <;> rfl

variable {bs : Buckets} {fs : List File}

theorem Holds.files_eq (h : bs.Holds fs) :
    bs.files = (List.finRange bs.placement.count).flatMap (bs.placement.share fs) := by
  rw [files, chains_toList, List.flatMap_map]
  simp only [List.flatMap]
  congr 1
  exact List.map_congr_left fun i _ => h i

theorem Holds.files_perm (h : bs.Holds fs) : bs.files.Perm fs := by
  rw [h.files_eq]
  exact flatMap_filter_perm (fun f => bs.placement.place f.path) _ (List.nodup_finRange _) fs
    fun f _ => List.mem_finRange _

theorem Holds.size_eq (h : bs.Holds fs) : bs.size = fs.length :=
  h.files_perm.length_eq

/-- A changed bucket holds what it should if it has its share of the new list and no other bucket's
share has changed. -/
theorem Holds.setBucket (h : bs.Holds fs) {i : Fin bs.placement.count} {b : Bucket}
    {gs : List File} (hi : b.toList = bs.placement.share gs i)
    (hne : ∀ j ≠ i, bs.placement.share gs j = bs.placement.share fs j) :
    (bs.setBucket i b).Holds gs := by
  intro (j : Fin bs.placement.count)
  change ((bs.setBucket i b).chains.get j).toList = bs.placement.share gs j
  rw [get_setBucket]
  by_cases hj : j = i
  · rw [if_pos hj, hi, hj]
  · rw [if_neg hj, h j, hne j hj]

/-! ## Looking up -/

/-- The cell found for a path is that of the oldest file listed under it. -/
theorem Holds.bucketFind?_eq_some (h : bs.Holds fs) {path : String} {cell : Nat}
    (hf : Bucket.find? (bs.bucketOf path) path = some cell) :
    ∃ older f newer, (bs.bucketOf path).Sits cell older f newer ∧ f.path = path ∧
      fs.find? (·.path = path) = some f := by
  obtain ⟨older, f, newer, hs, hp, ho⟩ := Chain.findOldest?_eq_some hf
  refine ⟨older, f, newer, hs, by simpa using hp, ?_⟩
  have hl : bs.placement.share fs (bs.placement.place path) = older ++ f :: newer :=
    (h _).symm.trans hs.toList_eq
  have hfind : (bs.placement.share fs (bs.placement.place path)).find? (·.path = path) = some f := by
    rw [hl]
    exact List.find?_eq_some_iff_append.mpr
      ⟨hp, older, newer, rfl, fun a ha => by simpa using ho a ha⟩
  rw [Placement.share, List.find?_filter] at hfind
  rw [← hfind]
  congr 1
  funext g
  by_cases hg : g.path = path <;> simp [hg]

theorem Holds.bucketFind?_eq_none (h : bs.Holds fs) {path : String}
    (hf : Bucket.find? (bs.bucketOf path) path = none) : fs.find? (·.path = path) = none := by
  apply List.find?_eq_none.mpr
  intro f hm
  by_cases hp : f.path = path
  · have hb : f ∈ (bs.bucketOf path).toList := by
      rw [bucketOf, h]
      exact bs.placement.mem_share.mpr ⟨hm, by rw [hp]⟩
    exact Chain.findOldest?_eq_none hf f hb
  · simpa using hp

theorem Holds.find?_eq (h : bs.Holds fs) (path : String) :
    bs.find? path = fs.find? (·.path = path) := by
  unfold find?
  cases hf : Bucket.find? (bs.bucketOf path) path with
  | none => simp [h.bucketFind?_eq_none hf]
  | some cell =>
      obtain ⟨older, f, newer, hs, -, hl⟩ := h.bucketFind?_eq_some hf
      simp [hs.get?_eq, hl]

/-! ## Adding and changing -/

theorem Holds.push (h : bs.Holds fs) (f : File) : (bs.push f).Holds (fs ++ [f]) := by
  apply h.setBucket
  · rw [Chain.toList_push, bucketOf, h, Placement.share_append]
    simp [Placement.share]
  · intro j hj
    rw [Placement.share_append]
    simp [Placement.share, Ne.symm hj]

theorem Holds.modify (h : bs.Holds fs) (hn : (fs.map File.path).Nodup) (path : String)
    {change : File → File} (hc : ∀ f, (change f).path = f.path) :
    (bs.modify path change).Holds (fs.map (File.changedAt path change)) := by
  have hkept : ∀ gs : List File, (∀ g ∈ gs, g.path ≠ path) →
      gs.map (File.changedAt path change) = gs := by
    intro gs hg
    exact (List.map_congr_left fun g hm => File.changedAt_of_ne (hg g hm)).trans (List.map_id gs)
  unfold Buckets.modify
  split
  · rename_i hf
    have hnone := List.find?_eq_none.mp (h.bucketFind?_eq_none hf)
    rw [hkept fs fun g hg => by simpa using hnone g hg]
    exact h
  · rename_i cell hf
    obtain ⟨older, f, newer, hs, rfl, -⟩ := h.bucketFind?_eq_some hf
    have hl := (h _).symm.trans hs.toList_eq
    have hnl := hl ▸ bs.placement.nodup_share hn (bs.placement.place f.path)
    apply h.setBucket
    · rw [hs.toList_modify, bs.placement.share_map (File.path_changedAt hc), hl,
        File.map_changedAt_of_nodup change hnl]
    · intro j hj
      rw [bs.placement.share_map (File.path_changedAt hc), hkept]
      intro g hg he
      exact hj ((bs.placement.mem_share.mp hg).2.symm.trans (by rw [he]))

theorem Holds.map (h : bs.Holds fs) {change : File → File} (hc : ∀ f, (change f).path = f.path) :
    (bs.map change).Holds (fs.map change) := by
  intro i
  have hm : (bs.map change).chains.get i = (bs.chains.get i).map change :=
    Vector.getElem_map _ i.isLt
  rw [hm, Chain.toList_map, h i]
  exact (bs.placement.share_map hc fs i).symm

@[simp] theorem chains_map (bs : Buckets) (change : File → File) :
    (bs.map change).chains.toList = bs.chains.toList.map fun b => b.map change :=
  Vector.toList_map

theorem files_map (bs : Buckets) (change : File → File) :
    (bs.map change).files = bs.files.map change := by
  simp only [files, chains_map, List.flatMap_map, Chain.toList_map, List.map_flatMap]

/-! ## Changing in different ways -/

theorem map_map (bs : Buckets) (f g : File → File) :
    (bs.map f).map g = bs.map fun k => g (f k) := by
  simp only [map, Vector.map_map]
  congr 2
  funext b
  exact b.map_map f g

theorem map_congr {f g : File → File} (h : ∀ k ∈ bs.files, f k = g k) : bs.map f = bs.map g := by
  simp only [map]
  congr 1
  refine Vector.map_congr_left fun b hb => Chain.map_congr fun i k hk => h k ?_
  refine List.mem_flatMap.mpr ⟨b, Vector.mem_toList_iff.mpr hb, ?_⟩
  exact List.mem_filterMap.mpr ⟨i, Chain.mem_forward_iff.mpr ⟨k, hk⟩, hk⟩

theorem map_id (bs : Buckets) : bs.map id = bs := by
  have hid : (fun b : Bucket => b.map id) = id := funext Chain.map_id
  rw [map, hid, Vector.map_id]

theorem setBucket_eq_map {i : Fin bs.placement.count} {b : Bucket} {f : File → File}
    (hi : b = (bs.chains.get i).map f)
    (hne : ∀ j ≠ i, (bs.chains.get j).map f = bs.chains.get j) : bs.setBucket i b = bs.map f := by
  rw [setBucket, map]
  congr 1
  refine Vector.ext fun j hj => ?_
  rw [Vector.getElem_set, Vector.getElem_map]
  by_cases he : (i : Nat) = j
  · subst he
    rw [if_pos rfl, hi]
    rfl
  · rw [if_neg he]
    exact (hne ⟨j, hj⟩ fun h => he (congrArg Fin.val h).symm).symm

/-- A file lies in the bucket of its path. -/
theorem Holds.place_eq (h : bs.Holds fs) {i : Fin bs.placement.count} {cell : Nat} {f : File}
    (hf : (bs.chains.get i).get? cell = some f) : f ∈ fs ∧ bs.placement.place f.path = i := by
  apply bs.placement.mem_share.mp
  rw [← h i]
  exact List.mem_filterMap.mpr ⟨cell, Chain.mem_forward_iff.mpr ⟨f, hf⟩, hf⟩

/-- Where no path is met twice, to change the file under a path is to change all files under it. -/
theorem Holds.modify_eq_map (h : bs.Holds fs) (hn : (fs.map File.path).Nodup) (path : String)
    (change : File → File) : bs.modify path change = bs.map (File.changedAt path change) := by
  unfold Buckets.modify
  split
  · rename_i hf
    have hnone := List.find?_eq_none.mp (h.bucketFind?_eq_none hf)
    refine bs.map_id.symm.trans (map_congr fun k hk => (File.changedAt_of_ne ?_).symm)
    simpa using hnone k (h.files_perm.mem_iff.mp hk)
  · rename_i cell hf
    obtain ⟨older, f, newer, hs, rfl, -⟩ := h.bucketFind?_eq_some hf
    have hnl : ((bs.bucketOf f.path).toList.map File.path).Nodup := by
      rw [bucketOf, h]
      exact bs.placement.nodup_share hn _
    refine setBucket_eq_map (Chain.modify_eq_map ?_ ?_) fun j hj => ?_
    · intro k hk
      obtain rfl : f = k := Option.some.inj (hs.get?_eq.symm.trans hk)
      exact (File.changedAt_of_eq rfl).symm
    · intro j k hj hk
      exact File.changedAt_of_ne fun he => hj (Chain.cell_inj hnl hk hs.get?_eq he)
    · refine (Chain.map_congr fun i k hk => File.changedAt_of_ne ?_).trans (Chain.map_id _)
      intro he
      exact hj ((h.place_eq hk).2.symm.trans (congrArg bs.placement.place he))

/-! ## Taking out -/

/-- A file taken out of its bucket leaves the list of the files stored under other paths. -/
theorem Holds.detach (h : bs.Holds fs) (hn : (fs.map File.path).Nodup)
    {i : Fin bs.placement.count} {cell : Nat} {older newer : List File} {f : File}
    (hs : (bs.chains.get i).Sits cell older f newer) :
    f ∈ fs ∧ (bs.setBucket i ((bs.chains.get i).detach cell)).Holds
      (fs.filter (·.path ≠ f.path)) := by
  have hl := (h i).symm.trans hs.toList_eq
  have hnl := hl ▸ bs.placement.nodup_share hn i
  obtain ⟨hm, hi⟩ := bs.placement.mem_share.mp (by simp [hl] : f ∈ bs.placement.share fs i)
  refine ⟨hm, h.setBucket ?_ ?_⟩
  · rw [hs.toList_detach, bs.placement.share_filter, hl, File.filter_path_ne_of_nodup hnl]
  · intro j hj
    rw [bs.placement.share_filter]
    apply List.filter_eq_self.mpr
    intro g hg
    have hgj := (bs.placement.mem_share.mp hg).2
    have hgf : g.path ≠ f.path := fun he => hj (by rw [← hgj, he, hi])
    simpa using hgf

theorem Holds.take?_eq_some (h : bs.Holds fs) (hn : (fs.map File.path).Nodup) {path : String}
    {f : File} (hf : fs.find? (·.path = path) = some f) :
    ∃ rest, bs.take? path = some (f, rest) ∧ rest.placement = bs.placement ∧
      rest.Holds (fs.filter (·.path ≠ path)) := by
  unfold take?
  cases hb : Bucket.find? (bs.bucketOf path) path with
  | none => simp [h.bucketFind?_eq_none hb] at hf
  | some cell =>
      obtain ⟨older, g, newer, hs, hp, hg⟩ := h.bucketFind?_eq_some hb
      obtain rfl : g = f := Option.some.inj (hg.symm.trans hf)
      obtain ⟨-, hh⟩ := h.detach hn hs
      rw [hp] at hh
      have hget : (bs.chains.get (bs.placement.place path)).get? cell = some g := hs.get?_eq
      refine ⟨bs.setBucket _ ((bs.bucketOf path).detach cell), ?_, rfl, hh⟩
      simp [takeCell?, hget, bucketOf]

theorem Holds.take?_eq_none (h : bs.Holds fs) {path : String}
    (hf : fs.find? (·.path = path) = none) : bs.take? path = none := by
  unfold take?
  cases hb : Bucket.find? (bs.bucketOf path) path with
  | none => rfl
  | some cell =>
      obtain ⟨older, g, newer, -, -, hg⟩ := h.bucketFind?_eq_some hb
      simp [hf] at hg

/-- What can be taken out under a path is a listed file. -/
theorem Holds.of_take? (h : bs.Holds fs) (hn : (fs.map File.path).Nodup) {path : String} {f : File}
    {rest : Buckets} (ht : bs.take? path = some (f, rest)) :
    f ∈ fs ∧ f.path = path ∧ rest.placement = bs.placement ∧
      rest.Holds (fs.filter (·.path ≠ path)) := by
  cases hf : fs.find? (·.path = path) with
  | none => simp [h.take?_eq_none hf] at ht
  | some g =>
      obtain ⟨rest', ht', hpl, hh⟩ := h.take?_eq_some hn hf
      obtain ⟨rfl, rfl⟩ := Prod.mk.inj (Option.some.inj (ht'.symm.trans ht))
      exact ⟨List.mem_of_find?_eq_some hf, by simpa using List.find?_some hf, hpl, hh⟩

/-- The file taken is the newest unprotected one of its bucket, and only its cell is emptied. -/
theorem takeNewest?_eq_some {protect : String} {i : Fin bs.placement.count} {f : File}
    {rest : Buckets} (ht : bs.takeNewest? protect i = some (f, rest)) :
    ∃ cell older newer, (bs.chains.get i).Sits cell older f newer ∧ f.path ≠ protect ∧
      (∀ g ∈ newer, g.path = protect) ∧
      rest = bs.setBucket i ((bs.chains.get i).detach cell) := by
  obtain ⟨cell, hc, ht⟩ := Option.bind_eq_some_iff.mp ht
  obtain ⟨older, g, newer, hs, hp, hnewer⟩ := Chain.findNewest?_eq_some hc
  simp only [takeCell?, hs.get?_eq, Option.map_some, Option.some.injEq, Prod.mk.injEq] at ht
  obtain ⟨rfl, rfl⟩ := ht
  exact ⟨cell, older, newer, hs, by simpa using hp, by simpa using hnewer, rfl⟩

theorem takeNewest?_eq_none_iff {protect : String} {i : Fin bs.placement.count} :
    bs.takeNewest? protect i = none ↔ ∀ f ∈ (bs.chains.get i).toList, f.path = protect := by
  constructor
  · intro ht
    cases hc : (bs.chains.get i).findNewest? (·.path ≠ protect) with
    | none => simpa using Chain.findNewest?_eq_none hc
    | some cell =>
        obtain ⟨older, f, newer, hs, -, -⟩ := Chain.findNewest?_eq_some hc
        rw [takeNewest?, hc] at ht
        simp [takeCell?, hs.get?_eq] at ht
  · intro hall
    cases ht : bs.takeNewest? protect i with
    | none => rfl
    | some taken =>
        obtain ⟨cell, older, newer, hs, hp, -⟩ := takeNewest?_eq_some ht
        exact absurd (hall taken.1 (by simp [hs.toList_eq])) hp

/-- Out of buckets that hold a list, a listed file is taken. -/
theorem Holds.takeNewest?_eq_some (h : bs.Holds fs) (hn : (fs.map File.path).Nodup)
    {protect : String} {i : Fin bs.placement.count} {f : File} {rest : Buckets}
    (ht : bs.takeNewest? protect i = some (f, rest)) :
    f ∈ fs ∧ f.path ≠ protect ∧ rest.placement = bs.placement ∧
      rest.Holds (fs.filter (·.path ≠ f.path)) := by
  obtain ⟨cell, older, newer, hs, hp, -, rfl⟩ := Buckets.takeNewest?_eq_some ht
  obtain ⟨hm, hh⟩ := h.detach hn hs
  exact ⟨hm, hp, rfl, hh⟩

/-- A stored file lies in some bucket. -/
theorem mem_files_iff {f : File} : f ∈ bs.files ↔ ∃ i, f ∈ (bs.chains.get i).toList := by
  simp [files, chains_toList]

/-! ## Taking out of any buckets -/

theorem map_chains_setBucket (i : Fin bs.placement.count) (b : Bucket) :
    (bs.setBucket i b).chains.toList.map (fun b => b.toList) =
      (bs.chains.toList.map fun b => b.toList).set i b.toList := by
  change (bs.chains.set i b).toList.map _ = _
  rw [Vector.toList_set, List.map_set]

/-- One file is out of its bucket, and nothing else has moved. The buckets need not hold a list:
a path may be met twice, and a file may lie in another bucket than that of its path. -/
structure Loses (bs : Buckets) (f : File) (rest : Buckets) : Prop where
  placement_eq : rest.placement = bs.placement
  out : ∃ (i : Fin bs.placement.count) (older newer : List File),
    (bs.chains.get i).toList = older ++ f :: newer ∧
      rest.chains.toList.map (fun b => b.toList) =
        (bs.chains.toList.map fun b => b.toList).set i (older ++ newer)

variable {f : File} {rest : Buckets}

theorem loses_of_takeCell? {i : Fin bs.placement.count} {cell : Nat}
    (h : bs.takeCell? i cell = some (f, rest)) : bs.Loses f rest := by
  obtain ⟨g, hg, he⟩ := Option.map_eq_some_iff.mp h
  obtain ⟨rfl, rfl⟩ := Prod.mk.inj he
  obtain ⟨front, back, ho⟩ := List.append_of_mem (Chain.mem_forward_iff.mpr ⟨g, hg⟩)
  have hs := Chain.sits_of_forward_eq ho hg
  exact ⟨rfl, i, _, _, hs.toList_eq, by rw [map_chains_setBucket, hs.toList_detach]⟩

theorem loses_of_take? {path : String} (h : bs.take? path = some (f, rest)) : bs.Loses f rest :=
  have ⟨_, _, ht⟩ := Option.bind_eq_some_iff.mp h
  loses_of_takeCell? ht

theorem loses_of_takeNewest? {protect : String} {i : Fin bs.placement.count}
    (h : bs.takeNewest? protect i = some (f, rest)) : bs.Loses f rest :=
  have ⟨_, _, ht⟩ := Option.bind_eq_some_iff.mp h
  loses_of_takeCell? ht

theorem Loses.files_eq (h : bs.Loses f rest) :
    ∃ front back, bs.files = front ++ f :: back ∧ rest.files = front ++ back := by
  obtain ⟨i, older, newer, hi, hrest⟩ := h.out
  simp only [files, List.flatMap_def, hrest]
  generalize hbs : (bs.chains.toList.map fun b => b.toList) = lists
  have hlt : (i : Nat) < lists.length := by simp [← hbs]
  have hget : lists[(i : Nat)] = older ++ f :: newer := by
    rw [← hi]
    simp [← hbs, Vector.get]
  have hlists : lists = lists.take i ++ (older ++ f :: newer) :: lists.drop (i + 1) := by
    rw [← hget, List.getElem_cons_drop, List.take_append_drop]
  refine ⟨(lists.take i).flatten ++ older, newer ++ (lists.drop (i + 1)).flatten, ?_, ?_⟩
  · exact (congrArg List.flatten hlists).trans (by simp)
  · rw [List.set_eq_take_append_cons_drop, if_pos hlt]
    simp

theorem Loses.files_perm (h : bs.Loses f rest) : bs.files.Perm (f :: rest.files) := by
  obtain ⟨front, back, hfiles, hrest⟩ := h.files_eq
  rw [hfiles, hrest]
  exact List.perm_middle

theorem Loses.size_eq (h : bs.Loses f rest) : bs.size = rest.size + 1 :=
  h.files_perm.length_eq

end Buckets

end FileDepot
