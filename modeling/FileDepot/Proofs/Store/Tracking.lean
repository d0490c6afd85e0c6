import Mathlib.Algebra.Order.BigOperators.Group.List
import Mathlib.Algebra.Order.Group.Nat
import Mathlib.Algebra.Ring.Nat
import FileDepot.Proofs.Policy.Choice
import FileDepot.Store.Operation

/-! # The list behind a store

A store tracks a list of files in the order of their creation: the buckets hold it, the chooser
covers it, and the totals count it. Every operation is described by the list it tracks
afterwards; eviction takes files off the list one by one. -/

namespace FileDepot

/-- The number of bytes in some files. -/
def bytesOf (fs : List File) : Nat :=
  (fs.map File.size).sum

theorem bytesOf_map {change : File → File} (hs : ∀ f, (change f).size = f.size) (fs : List File) :
    bytesOf (fs.map change) = bytesOf fs := by
  rw [bytesOf, bytesOf, List.map_map, show File.size ∘ change = File.size from funext hs]

theorem bytesOf_le_of_sublist {fs gs : List File} (h : gs.Sublist fs) : bytesOf gs ≤ bytesOf fs :=
  (h.map File.size).sum_le_sum fun _ _ => Nat.zero_le _

theorem bytesOf_eq_of_perm {fs gs : List File} (h : fs.Perm gs) : bytesOf fs = bytesOf gs :=
  (h.map File.size).sum_nat

/-! ## Totals -/

namespace Totals

/-- The totals count a list of files, and the highest values are not below them. -/
structure Counts (t : Totals) (fs : List File) : Prop where
  openFiles_eq : t.openFiles = fs.countP (·.isOpen)
  files_eq : t.files = fs.length
  bytes_eq : t.bytes = bytesOf fs
  files_le : t.files ≤ t.maxFilesSeen
  bytes_le : t.bytes ≤ t.maxBytesSeen

theorem counts_nil : Counts {} [] :=
  ⟨rfl, rfl, rfl, Int.le_refl _, Int.le_refl _⟩

variable {t : Totals} {fs : List File}

theorem counts_add {gs : List File} {openFiles files bytes : Int}
    (ho : t.openFiles + openFiles = gs.countP (·.isOpen)) (hf : t.files + files = gs.length)
    (hb : t.bytes + bytes = bytesOf gs) : (t.add openFiles files bytes).Counts gs :=
  ⟨ho, hf, hb, Int.le_max_right .., Int.le_max_right ..⟩

theorem Counts.maxFilesSeen_add {gs : List File} {openFiles files bytes : Int}
    (h : (t.add openFiles files bytes).Counts gs) :
    (t.add openFiles files bytes).maxFilesSeen = max t.maxFilesSeen gs.length := by
  rw [← h.files_eq]
  rfl

theorem Counts.maxBytesSeen_add {gs : List File} {openFiles files bytes : Int}
    (h : (t.add openFiles files bytes).Counts gs) :
    (t.add openFiles files bytes).maxBytesSeen = max t.maxBytesSeen (bytesOf gs) := by
  rw [← h.bytes_eq]
  rfl

theorem Counts.add_zero (h : t.Counts fs) : t.add 0 0 0 = t := by
  have hf := h.files_le
  have hb := h.bytes_le
  simp only [add, Int.add_zero]
  rw [Int.max_eq_left hf, Int.max_eq_left hb]

theorem countP_isOpen_split (older newer : List File) (f : File) :
    ((older ++ f :: newer).countP (·.isOpen) : Int) =
      (older ++ newer).countP (·.isOpen) + if f.isOpen then 1 else 0 := by
  simp only [List.countP_append, List.countP_cons]
  cases f.isOpen with
  | false => simp
  | true =>
      simp
      omega

theorem bytesOf_split (older newer : List File) (f : File) :
    bytesOf (older ++ f :: newer) = bytesOf (older ++ newer) + f.size := by
  simp only [bytesOf, List.map_append, List.map_cons, List.sum_append, List.sum_cons]
  omega

/-- A file that leaves is taken off the totals, and no highest value moves. -/
theorem Counts.without (h : t.Counts fs) (hn : (fs.map File.path).Nodup) {f : File} (hf : f ∈ fs) :
    (t.without f).Counts (fs.filter (·.path ≠ f.path)) ∧
      (t.without f).maxFilesSeen = t.maxFilesSeen ∧ (t.without f).maxBytesSeen = t.maxBytesSeen := by
  obtain ⟨older, newer, rfl⟩ := List.append_of_mem hf
  rw [File.filter_path_ne_of_nodup hn]
  have ho := h.openFiles_eq
  have hl := h.files_eq
  have hb := h.bytes_eq
  have hfl := h.files_le
  have hbl := h.bytes_le
  rw [countP_isOpen_split] at ho
  rw [bytesOf_split] at hb
  simp only [List.length_append, List.length_cons] at hl
  refine ⟨counts_add ?_ ?_ ?_, ?_, ?_⟩
  · cases hfo : f.isOpen <;> simp [hfo] at ho ⊢ <;> omega
  · simp only [List.length_append]
    omega
  · omega
  · exact Int.max_eq_left (by omega)
  · exact Int.max_eq_left (by omega)

/-- Changing one file changes the totals by the difference it makes. -/
theorem Counts.changedAt (h : t.Counts fs) (hn : (fs.map File.path).Nodup) {f : File}
    (hf : f ∈ fs) (change : File → File) :
    (t.add ((if (change f).isOpen then 1 else 0) - if f.isOpen then 1 else 0) 0
      ((change f).size - f.size)).Counts (fs.map (File.changedAt f.path change)) := by
  obtain ⟨older, newer, rfl⟩ := List.append_of_mem hf
  rw [File.map_changedAt_of_nodup change hn]
  have ho := h.openFiles_eq
  have hl := h.files_eq
  have hb := h.bytes_eq
  rw [countP_isOpen_split] at ho
  rw [bytesOf_split] at hb
  simp only [List.length_append, List.length_cons] at hl
  refine counts_add ?_ ?_ ?_
  · rw [countP_isOpen_split]
    omega
  · simp only [List.length_append, List.length_cons]
    omega
  · rw [bytesOf_split]
    omega

end Totals

theorem File.ticket_changedAt (path : String) {change : File → File}
    (hc : ∀ f, (change f).ticket = f.ticket) (f : File) :
    (changedAt path change f).ticket = f.ticket := by
  unfold changedAt
  split
  · exact hc f
  · rfl

namespace Store

/-! ## Tracking -/

/-- The buckets hold a list of files in the order of creation, and the chooser covers it. -/
structure Keeps (s : Store) (fs : List File) : Prop where
  holds : s.buckets.Holds fs
  nodup : (fs.map File.path).Nodup
  increasing : fs.Pairwise (·.generation < ·.generation)
  fresh : ∀ f ∈ fs, f.generation < s.nextGeneration
  covers : s.chooser.Covers fs s.nextGeneration

/-- A store between operations: it keeps a list of files, and the totals count it. -/
structure Tracks (s : Store) (fs : List File) : Prop extends s.Keeps fs where
  counts : s.totals.Counts fs

theorem tracks_empty (maxFiles maxBytes : UInt64) (placement : Placement) (policy : Policy)
    (dice : Dice) : (empty maxFiles maxBytes placement policy dice).Tracks [] where
  holds := Buckets.holds_empty placement
  nodup := by simp
  increasing := .nil
  fresh := by simp
  covers := Chooser.covers_start policy dice 0
  counts := Totals.counts_nil

variable {s : Store} {fs : List File}

theorem Keeps.find?_eq (h : s.Keeps fs) (path : String) :
    s.find? path = fs.find? (·.path = path) :=
  h.holds.find?_eq path

theorem Keeps.mem_of_find? (h : s.Keeps fs) {path : String} {f : File}
    (hf : s.find? path = some f) : f ∈ fs ∧ f.path = path := by
  rw [h.find?_eq] at hf
  exact ⟨List.mem_of_find?_eq_some hf, by simpa using List.find?_some hf⟩

theorem Keeps.files_perm (h : s.Keeps fs) : s.files.Perm fs :=
  h.holds.files_perm

/-- A change that keeps path and generation changes the list and nothing else that is kept. -/
theorem Keeps.changed (h : s.Keeps fs) {change : File → File}
    (hc : ∀ f, (change f).ticket = f.ticket) {bs : Buckets} (hb : bs.Holds (fs.map change)) :
    Keeps { s with buckets := bs } (fs.map change) := by
  have hp : ∀ f, (change f).path = f.path := fun f => congrArg Ticket.path (hc f)
  have hg : ∀ f, (change f).generation = f.generation := fun f => congrArg Ticket.generation (hc f)
  refine ⟨hb, ?_, ?_, ?_, h.covers.map hc⟩
  · rw [List.map_map, show File.path ∘ change = File.path from funext hp]
    exact h.nodup
  · refine List.pairwise_map.mpr (h.increasing.imp ?_)
    intro f g hfg
    rwa [hg, hg]
  · intro f hf
    obtain ⟨g, hgm, rfl⟩ := List.mem_map.mp hf
    rw [hg]
    exact h.fresh g hgm

theorem Keeps.modify (h : s.Keeps fs) (path : String) {change : File → File}
    (hc : ∀ f, (change f).ticket = f.ticket) :
    (s.modify path change).Keeps (fs.map (File.changedAt path change)) :=
  h.changed (File.ticket_changedAt path hc)
    (h.holds.modify h.nodup path fun f => congrArg Ticket.path (hc f))

theorem Keeps.map (h : s.Keeps fs) {change : File → File} (hc : ∀ f, (change f).ticket = f.ticket) :
    Keeps { s with buckets := s.buckets.map change } (fs.map change) :=
  h.changed hc (h.holds.map fun f => congrArg Ticket.path (hc f))

theorem Keeps.filter (h : s.Keeps fs) {keep : File → Bool} {rest : Buckets}
    (hr : rest.Holds (fs.filter keep)) {chooser : Chooser}
    (hc : chooser.Covers (fs.filter keep) s.nextGeneration) (totals : Totals) :
    Keeps { s with buckets := rest, chooser, totals } (fs.filter keep) :=
  ⟨hr, h.nodup.sublist (List.filter_sublist.map _), h.increasing.sublist List.filter_sublist,
    fun f hf => h.fresh f (List.mem_filter.mp hf).1, hc⟩

end Store

end FileDepot
