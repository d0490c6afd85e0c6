import Mathlib.Data.List.Nodup
import FileDepot.Chain

/-! # The order of a chain

A chain stands for the list of its values, oldest first. Following the links forward meets the
occupied cells in that order and following them backward meets them in the reverse order; each
operation is described by what it does to the list. -/

namespace FileDepot

/-! ## Walking along the links -/

/-- A walk whose steps lead from each cell of a list to the next one meets the whole list. -/
theorem Chain.walk_eq_of_steps {step : Nat → Option Nat} {order : List Nat} {fuel : Nat}
    (hf : order.length ≤ fuel)
    (hs : ∀ front i back, order = front ++ i :: back → step i = back.head?) :
    Chain.walk step fuel order.head? = order := by
  induction order generalizing fuel with
  | nil => cases fuel <;> rfl
  | cons i order ih =>
      cases fuel with
      | zero => simp at hf
      | succ fuel =>
          have hi : step i = order.head? := hs [] i order rfl
          have hr : ∀ front j back, order = front ++ j :: back → step j = back.head? := by
            intro front j back he
            exact hs (i :: front) j back (by simp [he])
          have ht : order.length ≤ fuel := by simpa using hf
          simp only [List.head?_cons, Chain.walk, hi, ih ht hr]

namespace Linked

variable {α : Type} {cells : Cells (Link α)} {first last : Option Nat} {order : List Nat}

theorem length_le_capacity (h : Linked cells first last order) :
    order.length ≤ cells.capacity := by
  have hs : order ⊆ List.range cells.capacity := by
    intro i hi
    obtain ⟨l, hl⟩ := h.live hi
    exact List.mem_range.mpr (Cells.lt_capacity_of_get? hl)
  simpa using List.Nodup.length_le_of_subset h.nodup hs

end Linked

namespace Chain

variable {α : Type} {c : Chain α} {order : List Nat}

theorem next?_eq_of_linked (h : Linked c.cells c.first c.last order) {front back : List Nat}
    {i : Nat} (ho : order = front ++ i :: back) : c.next? i = back.head? := by
  obtain ⟨a, ha⟩ := h.link front i back ho
  simp [next?, ha]

theorem prev?_eq_of_linked (h : Linked c.cells c.first c.last order) {front back : List Nat}
    {i : Nat} (ho : order = front ++ i :: back) : c.prev? i = front.getLast? := by
  obtain ⟨a, ha⟩ := h.link front i back ho
  simp [prev?, ha]

theorem forward_eq_of_linked (h : Linked c.cells c.first c.last order) : c.forward = order := by
  rw [forward, h.first_eq]
  apply walk_eq_of_steps h.length_le_capacity
  intro front i back ho
  exact next?_eq_of_linked h ho

theorem backward_eq_of_linked (h : Linked c.cells c.first c.last order) :
    c.backward = order.reverse := by
  rw [backward, h.last_eq, ← List.head?_reverse]
  apply walk_eq_of_steps (by simpa using h.length_le_capacity)
  intro front i back ho
  have hr : order = back.reverse ++ i :: front.reverse := by
    simpa using congrArg List.reverse ho
  rw [prev?_eq_of_linked h hr, List.getLast?_reverse]

theorem linked_forward (c : Chain α) : Linked c.cells c.first c.last c.forward := by
  obtain ⟨order, h⟩ := c.linked
  rwa [forward_eq_of_linked h]

theorem backward_eq_reverse_forward (c : Chain α) : c.backward = c.forward.reverse :=
  backward_eq_of_linked c.linked_forward

theorem first_eq_head?_forward (c : Chain α) : c.first = c.forward.head? :=
  c.linked_forward.first_eq

theorem nodup_forward (c : Chain α) : c.forward.Nodup :=
  c.linked_forward.nodup

theorem next?_of_forward_eq {front back : List Nat} {i : Nat}
    (h : c.forward = front ++ i :: back) : c.next? i = back.head? :=
  next?_eq_of_linked c.linked_forward h

/-- No cell is met twice. -/
theorem ne_of_forward_eq {front back : List Nat} {i : Nat} (ho : c.forward = front ++ i :: back) :
    (∀ j ∈ front, j ≠ i) ∧ ∀ j ∈ back, j ≠ i := by
  have hn : (front ++ i :: back).Nodup := ho ▸ c.nodup_forward
  obtain ⟨-, hnb, hne⟩ := List.nodup_append.mp hn
  exact ⟨fun j hj => hne j hj i List.mem_cons_self,
    fun j hj he => (List.nodup_cons.mp hnb).1 (he ▸ hj)⟩

theorem mem_forward_iff {i : Nat} : i ∈ c.forward ↔ ∃ a, c.get? i = some a := by
  constructor
  · intro h
    obtain ⟨l, hl⟩ := c.linked_forward.live h
    exact ⟨l.value, by simp [get?, hl]⟩
  · rintro ⟨a, ha⟩
    obtain ⟨l, hl, -⟩ := Option.map_eq_some_iff.mp ha
    exact c.linked_forward.complete i l hl

/-! ## What the operations do to the cells -/

theorem forward_push (c : Chain α) (a : α) :
    (c.push a).forward = c.forward ++ [c.cells.vacancy] :=
  forward_eq_of_linked (c.linked_forward.push a)

theorem get?_push (c : Chain α) (a : α) (j : Nat) :
    (c.push a).get? j = if j = c.cells.vacancy then some a else c.get? j := by
  simp only [get?, push, Cells.get?_setAfter, Cells.get?_insert]
  by_cases hj : j = c.cells.vacancy
  · by_cases hl : c.last = some c.cells.vacancy <;> simp [hj, hl]
  · by_cases hl : c.last = some j
    · cases hg : c.cells.get? j <;> simp [hj, hl]
    · simp [hj, hl]

theorem detach_of_get?_eq_none {i : Nat} (h : c.get? i = none) : c.detach i = c := by
  have hn : c.cells.get? i = none := by simpa [get?] using h
  unfold detach
  split
  · rfl
  · rename_i l hl
    simp [hn] at hl

theorem forward_detach (c : Chain α) (i : Nat) : (c.detach i).forward = c.forward.erase i := by
  cases hg : c.get? i with
  | none =>
      have hm : i ∉ c.forward := by simp [mem_forward_iff, hg]
      rw [detach_of_get?_eq_none hg, List.erase_of_not_mem hm]
  | some a =>
      obtain ⟨l, hl, -⟩ := Option.map_eq_some_iff.mp hg
      apply forward_eq_of_linked
      unfold detach
      split
      · rename_i hn
        simp [hn] at hl
      · rename_i k hk
        exact c.linked_forward.detach hk

theorem get?_detach (c : Chain α) (i j : Nat) :
    (c.detach i).get? j = if j = i then none else c.get? j := by
  unfold detach
  split
  · rename_i hn
    by_cases hj : j = i
    · simp [get?, hj, hn]
    · simp [hj]
  · rename_i l hl
    simp only [get?, Cells.get?_setBefore, Cells.get?_setAfter, Cells.get?_remove]
    by_cases hj : j = i
    · simp [hj]
    · cases hg : c.cells.get? j with
      | none => simp [hj]
      | some k => by_cases ha : l.after = some j <;> by_cases hb : l.before = some j <;> simp [hj, ha, hb]

@[simp] theorem forward_modify (c : Chain α) (i : Nat) (f : α → α) :
    (c.modify i f).forward = c.forward :=
  forward_eq_of_linked (c.linked_forward.modify i f)

theorem get?_modify (c : Chain α) (i : Nat) (f : α → α) (j : Nat) :
    (c.modify i f).get? j = if j = i then (c.get? j).map f else c.get? j := by
  simp only [get?, modify, Cells.get?_modify]
  by_cases hj : j = i
  · cases hg : c.cells.get? j <;> simp [hj]
  · simp [hj]

@[simp] theorem forward_map (c : Chain α) (f : α → α) : (c.map f).forward = c.forward :=
  forward_eq_of_linked (c.linked_forward.map f)

theorem get?_map (c : Chain α) (f : α → α) (j : Nat) :
    (c.map f).get? j = (c.get? j).map f := by
  simp only [get?, map, Cells.get?_map]
  cases hg : c.cells.get? j <;> simp

/-! ## Changing values in different ways -/

theorem eq_of_get? {c d : Chain α} (hf : c.first = d.first) (hl : c.last = d.last)
    (hc : c.cells.capacity = d.cells.capacity) (h : ∀ i, c.cells.get? i = d.cells.get? i) :
    c = d := by
  have hcells := Cells.eq_of_get? hc h
  obtain ⟨cells, first, last, linked⟩ := c
  obtain rfl : cells = d.cells := hcells
  obtain rfl : first = d.first := hf
  obtain rfl : last = d.last := hl
  rfl

theorem map_congr {f g : α → α} (h : ∀ i a, c.get? i = some a → f a = g a) : c.map f = c.map g := by
  refine eq_of_get? rfl rfl (by simp [map]) fun i => ?_
  simp only [map, Cells.get?_map]
  cases hi : c.cells.get? i with
  | none => rfl
  | some l => simp [h i l.value (by simp [get?, hi])]

theorem map_id (c : Chain α) : c.map id = c := by
  refine eq_of_get? rfl rfl (by simp [map]) fun i => ?_
  simp only [map, Cells.get?_map]
  cases c.cells.get? i <;> rfl

theorem map_map (c : Chain α) (f g : α → α) : (c.map f).map g = c.map fun a => g (f a) := by
  refine eq_of_get? rfl rfl (by simp [map]) fun i => ?_
  simp only [map, Cells.get?_map, Option.map_map]
  rfl

/-- Changing one value is changing them all, where that does the same to it and nothing to others. -/
theorem modify_eq_map {i : Nat} {f g : α → α} (hi : ∀ a, c.get? i = some a → f a = g a)
    (h : ∀ j a, j ≠ i → c.get? j = some a → g a = a) : c.modify i f = c.map g := by
  refine eq_of_get? rfl rfl (by simp [modify, map]) fun j => ?_
  simp only [modify, map, Cells.get?_modify, Cells.get?_map]
  cases hl : c.cells.get? j with
  | none => simp
  | some l =>
      have hg : c.get? j = some l.value := by simp [get?, hl]
      by_cases hj : j = i
      · simp [hj, hi l.value (hj ▸ hg)]
      · simp [hj, h j l.value hj hg]

theorem modify_congr {i : Nat} {f g : α → α} (h : ∀ a, c.get? i = some a → f a = g a) :
    c.modify i f = c.modify i g := by
  refine eq_of_get? rfl rfl (by simp [modify]) fun j => ?_
  simp only [modify, Cells.get?_modify]
  by_cases hj : j = i
  · cases hl : c.cells.get? j with
    | none => rfl
    | some l => simp [hj, h l.value (by simp [get?, ← hj, hl])]
  · rw [if_neg hj, if_neg hj]

theorem modify_id (c : Chain α) (i : Nat) : c.modify i id = c := by
  refine eq_of_get? rfl rfl (by simp [modify]) fun j => ?_
  simp only [modify, Cells.get?_modify]
  by_cases hj : j = i
  · cases hl : c.cells.get? j <;> simp [hj]
  · rw [if_neg hj]

/-- A change of one value makes no difference to a later change of all that overrides it. -/
theorem map_modify (c : Chain α) (i : Nat) {f g : α → α} (h : ∀ a, f (g a) = f a) :
    (c.modify i g).map f = c.map f := by
  refine eq_of_get? rfl rfl (by simp [modify, map]) fun j => ?_
  simp only [modify, map, Cells.get?_modify, Cells.get?_map]
  by_cases hj : j = i
  · cases hl : c.cells.get? j with
    | none => simp
    | some l => simp [hj, h]
  · rw [if_neg hj]

/-! ## What the operations do to the list of values -/

@[simp] theorem toList_empty : ({} : Chain α).toList = [] := rfl

@[simp] theorem toList_push (c : Chain α) (a : α) : (c.push a).toList = c.toList ++ [a] := by
  have ho : c.forward.filterMap (c.push a).get? = c.forward.filterMap c.get? := by
    apply List.filterMap_congr
    intro j hj
    have hv : j ≠ c.cells.vacancy := by
      rintro rfl
      exact c.linked_forward.vacancy_not_mem hj
    simp [get?_push, hv]
  rw [toList, forward_push, List.filterMap_append, ho]
  simp [get?_push, toList]

@[simp] theorem toList_map (c : Chain α) (f : α → α) : (c.map f).toList = c.toList.map f := by
  simp only [toList, forward_map, List.map_filterMap]
  exact List.filterMap_congr fun j _ => get?_map c f j

/-- A cell holds `a`, with the values `older` before it and `newer` after it. -/
structure Sits (c : Chain α) (i : Nat) (older : List α) (a : α) (newer : List α) : Prop where
  get?_eq : c.get? i = some a
  toList_eq : c.toList = older ++ a :: newer
  toList_detach : (c.detach i).toList = older ++ newer
  toList_modify : ∀ f, (c.modify i f).toList = older ++ f a :: newer

theorem sits_of_forward_eq {front back : List Nat} {i : Nat} {a : α}
    (ho : c.forward = front ++ i :: back) (ha : c.get? i = some a) :
    c.Sits i (front.filterMap c.get?) a (back.filterMap c.get?) := by
  obtain ⟨hf, hb⟩ := ne_of_forward_eq ho
  have he : (front ++ i :: back).erase i = front ++ back := by
    rw [List.erase_append_right _ (fun hm => hf i hm rfl), List.erase_cons_head]
  refine ⟨ha, by simp [toList, ho, ha], ?_, ?_⟩
  · rw [toList, forward_detach, ho, he, List.filterMap_append]
    congr 1
    · exact List.filterMap_congr fun j hj => by simp [get?_detach, hf j hj]
    · exact List.filterMap_congr fun j hj => by simp [get?_detach, hb j hj]
  · intro f
    rw [toList, forward_modify, ho, List.filterMap_append, List.filterMap_cons]
    simp only [get?_modify, ha, if_true, Option.map_some]
    congr 1
    · exact List.filterMap_congr fun j hj => by simp [hf j hj]
    · congr 1
      exact List.filterMap_congr fun j hj => by simp [hb j hj]

/-- What tells the values apart tells their cells apart. -/
theorem cell_inj {β : Type} {g : α → β} (hn : (c.toList.map g).Nodup) {i j : Nat} {a b : α}
    (hi : c.get? i = some a) (hj : c.get? j = some b) (he : g a = g b) : i = j := by
  obtain ⟨front, back, ho⟩ := List.append_of_mem (mem_forward_iff.mpr ⟨a, hi⟩)
  have hm := mem_forward_iff.mpr ⟨b, hj⟩
  rw [(sits_of_forward_eq ho hi).toList_eq, List.map_append, List.map_cons, List.nodup_middle,
    List.nodup_cons, ← List.map_append] at hn
  by_contra hne
  refine hn.1 (he ▸ List.mem_map_of_mem ?_)
  rw [← List.filterMap_append]
  refine List.mem_filterMap.mpr ⟨j, ?_, hj⟩
  rw [ho] at hm
  simpa [Ne.symm hne] using hm

/-! ## Searching from either end -/

theorem findOldest?_eq_some {p : α → Bool} {i : Nat} (h : c.findOldest? p = some i) :
    ∃ older a newer, c.Sits i older a newer ∧ p a ∧ ∀ x ∈ older, ¬ p x := by
  obtain ⟨hp, front, back, ho, hf⟩ := List.find?_eq_some_iff_append.mp h
  obtain ⟨a, ha, hpa⟩ := (Option.any_eq_true p _).mp hp
  refine ⟨_, a, _, sits_of_forward_eq ho ha, hpa, ?_⟩
  intro x hx
  obtain ⟨j, hj, hx⟩ := List.mem_filterMap.mp hx
  simpa [hx] using hf j hj

theorem findNewest?_eq_some {p : α → Bool} {i : Nat} (h : c.findNewest? p = some i) :
    ∃ older a newer, c.Sits i older a newer ∧ p a ∧ ∀ x ∈ newer, ¬ p x := by
  rw [findNewest?, backward_eq_reverse_forward] at h
  obtain ⟨hp, front, back, ho, hf⟩ := List.find?_eq_some_iff_append.mp h
  obtain ⟨a, ha, hpa⟩ := (Option.any_eq_true p _).mp hp
  have hr : c.forward = back.reverse ++ i :: front.reverse := by
    simpa using congrArg List.reverse ho
  refine ⟨_, a, _, sits_of_forward_eq hr ha, hpa, ?_⟩
  intro x hx
  obtain ⟨j, hj, hx⟩ := List.mem_filterMap.mp hx
  simpa [hx] using hf j (List.mem_reverse.mp hj)

theorem findOldest?_eq_none {p : α → Bool} (h : c.findOldest? p = none) :
    ∀ a ∈ c.toList, ¬ p a := by
  intro a ha
  obtain ⟨i, hi, ha⟩ := List.mem_filterMap.mp ha
  simpa [ha] using List.find?_eq_none.mp h i hi

theorem findNewest?_eq_none {p : α → Bool} (h : c.findNewest? p = none) :
    ∀ a ∈ c.toList, ¬ p a := by
  intro a ha
  obtain ⟨i, hi, ha⟩ := List.mem_filterMap.mp ha
  rw [findNewest?, backward_eq_reverse_forward] at h
  simpa [ha] using List.find?_eq_none.mp h i (List.mem_reverse.mpr hi)

end Chain

end FileDepot
