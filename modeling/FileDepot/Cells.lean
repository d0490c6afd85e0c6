/-!
# Cells

Numbered cells for values. A cell keeps its number for as long as it is occupied, and a vacated
number is handed out again. The lemmas say what each operation does to the look-up `get?`; nothing
else unfolds the cells.
-/

namespace FileDepot

/-- Numbered cells, some of them vacant. -/
structure Cells (α : Type) where
  slots : Array (Option α) := #[]

namespace Cells

variable {α : Type}

/-- The occupant of a cell. -/
def get? (s : Cells α) (i : Nat) : Option α :=
  (s.slots[i]?).join

/-- The number that the next insertion receives: the lowest vacant one. -/
def vacancy (s : Cells α) : Nat :=
  s.slots.findIdx Option.isNone

/-- The number of cells, vacant ones included. -/
def capacity (s : Cells α) : Nat :=
  s.slots.size

/-- Occupies the cell `s.vacancy`. -/
def insert (s : Cells α) (a : α) : Cells α :=
  ⟨if s.vacancy < s.slots.size then s.slots.setIfInBounds s.vacancy (some a)
    else s.slots.push (some a)⟩

/-- Vacates a cell. -/
def remove (s : Cells α) (i : Nat) : Cells α :=
  ⟨s.slots.setIfInBounds i none⟩

/-- Changes the occupant of a cell, if there is one. -/
def modify (s : Cells α) (i : Nat) (f : α → α) : Cells α :=
  ⟨s.slots.modify i (Option.map f)⟩

/-- Changes every occupant. -/
def map (s : Cells α) (f : α → α) : Cells α :=
  ⟨s.slots.map (Option.map f)⟩

@[simp] theorem get?_empty (i : Nat) : (⟨#[]⟩ : Cells α).get? i = none := by
  simp [get?]

theorem vacancy_le (s : Cells α) : s.vacancy ≤ s.slots.size :=
  Array.findIdx_le_size

/-- A number about to be handed out is not in use. -/
theorem get?_vacancy (s : Cells α) : s.get? s.vacancy = none := by
  unfold get?
  by_cases h : s.vacancy < s.slots.size
  · have hn : s.slots[s.vacancy].isNone = true := Array.findIdx_getElem (w := h)
    simp [Array.getElem?_eq_getElem h, Option.isNone_iff_eq_none.mp hn]
  · simp [Array.getElem?_eq_none (Nat.le_of_not_lt h)]

theorem lt_capacity_of_get? {s : Cells α} {i : Nat} {a : α} (h : s.get? i = some a) :
    i < s.capacity := by
  unfold get? at h
  by_cases hi : i < s.slots.size
  · exact hi
  · simp [Array.getElem?_eq_none (Nat.le_of_not_lt hi)] at h

theorem get?_insert (s : Cells α) (a : α) (j : Nat) :
    (s.insert a).get? j = if j = s.vacancy then some a else s.get? j := by
  unfold insert get?
  have hle := s.vacancy_le
  by_cases h : s.vacancy < s.slots.size
  · simp only [h, if_true, Array.getElem?_setIfInBounds]
    by_cases hj : s.vacancy = j
    · subst hj
      simp
    · simp [hj, Ne.symm hj]
  · have he : s.vacancy = s.slots.size := Nat.le_antisymm hle (Nat.le_of_not_lt h)
    simp only [h, if_false, Array.getElem?_push]
    by_cases hj : j = s.slots.size <;> simp [hj, he]

theorem get?_remove (s : Cells α) (i j : Nat) :
    (s.remove i).get? j = if j = i then none else s.get? j := by
  unfold remove get?
  simp only [Array.getElem?_setIfInBounds]
  by_cases hj : i = j
  · subst hj
    by_cases h : i < s.slots.size <;> simp [h]
  · simp [hj, Ne.symm hj]

theorem get?_modify (s : Cells α) (i : Nat) (f : α → α) (j : Nat) :
    (s.modify i f).get? j = if j = i then (s.get? j).map f else s.get? j := by
  unfold modify get?
  simp only [Array.getElem?_modify]
  by_cases hj : i = j
  · subst hj
    cases h : s.slots[i]? <;> simp
  · simp [hj, Ne.symm hj]

theorem get?_map (s : Cells α) (f : α → α) (j : Nat) : (s.map f).get? j = (s.get? j).map f := by
  unfold map get?
  cases h : s.slots[j]? <;> simp [h]

@[simp] theorem capacity_modify (s : Cells α) (i : Nat) (f : α → α) :
    (s.modify i f).capacity = s.capacity :=
  Array.size_modify

@[simp] theorem capacity_map (s : Cells α) (f : α → α) : (s.map f).capacity = s.capacity :=
  Array.size_map

/-- As many cells with the same occupants are the same cells. -/
theorem eq_of_get? {s t : Cells α} (hc : s.capacity = t.capacity)
    (h : ∀ i, s.get? i = t.get? i) : s = t := by
  obtain ⟨s⟩ := s
  obtain ⟨t⟩ := t
  congr 1
  refine Array.ext hc fun i hs ht => ?_
  simpa [get?, hs, ht] using h i

end Cells

end FileDepot
