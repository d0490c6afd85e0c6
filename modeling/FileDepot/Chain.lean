import FileDepot.Cells

/-!
# Doubly linked chains

A chain keeps values in insertion order. Every value sits in a cell beside the numbers of its
neighbours, so a value whose cell is known is detached without a search. The links are
consistent in every chain: `Chain.linked` is part of the type.
-/

namespace FileDepot

/-- A value and the cells of its neighbours. -/
structure Link (α : Type) where
  value : α
  before : Option Nat
  after : Option Nat

/-- `order` lists the occupied cells, each once, and every link names its neighbours in `order`. -/
structure Linked {α : Type} (cells : Cells (Link α)) (first last : Option Nat)
    (order : List Nat) : Prop where
  nodup : order.Nodup
  complete : ∀ i l, cells.get? i = some l → i ∈ order
  first_eq : first = order.head?
  last_eq : last = order.getLast?
  link : ∀ front i back, order = front ++ i :: back →
    ∃ a, cells.get? i = some ⟨a, front.getLast?, back.head?⟩

theorem linked_empty {α : Type} : ∃ order, Linked ({} : Cells (Link α)) none none order :=
  ⟨[], by simp, by simp, rfl, rfl, by simp⟩

/-- Values in insertion order, oldest first. -/
structure Chain (α : Type) where
  cells : Cells (Link α) := {}
  first : Option Nat := none
  last : Option Nat := none
  linked : ∃ order, Linked cells first last order := by exact linked_empty

namespace Cells

variable {α : Type}

/-- Makes `after` the right neighbour of the cell, if one is given. -/
def setAfter (s : Cells (Link α)) (cell after : Option Nat) : Cells (Link α) :=
  match cell with
  | none => s
  | some i => s.modify i fun l => { l with after }

/-- Makes `before` the left neighbour of the cell, if one is given. -/
def setBefore (s : Cells (Link α)) (cell before : Option Nat) : Cells (Link α) :=
  match cell with
  | none => s
  | some i => s.modify i fun l => { l with before }

theorem get?_setAfter (s : Cells (Link α)) (cell after : Option Nat) (j : Nat) :
    (s.setAfter cell after).get? j =
      if cell = some j then (s.get? j).map fun l => { l with after } else s.get? j := by
  cases cell with
  | none => simp [setAfter]
  | some i => simp [setAfter, get?_modify, eq_comm]

theorem get?_setBefore (s : Cells (Link α)) (cell before : Option Nat) (j : Nat) :
    (s.setBefore cell before).get? j =
      if cell = some j then (s.get? j).map fun l => { l with before } else s.get? j := by
  cases cell with
  | none => simp [setBefore]
  | some i => simp [setBefore, get?_modify, eq_comm]

end Cells

namespace Linked

variable {α : Type} {cells : Cells (Link α)} {first last : Option Nat} {order : List Nat}

theorem live (h : Linked cells first last order) {i : Nat} (hi : i ∈ order) :
    ∃ l, cells.get? i = some l := by
  obtain ⟨front, back, rfl⟩ := List.append_of_mem hi
  obtain ⟨a, ha⟩ := h.link front i back rfl
  exact ⟨_, ha⟩

theorem vacancy_not_mem (h : Linked cells first last order) : cells.vacancy ∉ order := by
  intro hm
  obtain ⟨l, hl⟩ := h.live hm
  simp [cells.get?_vacancy] at hl

/-- A value in a cell that was vacant comes last, and the last one before it points to it. -/
theorem grow (h : Linked cells first last order) {grown : Cells (Link α)} {i : Nat} {a : α}
    (hi : i ∉ order)
    (hg : ∀ j, grown.get? j =
      if j = i then some ⟨a, last, none⟩
      else if last = some j then (cells.get? j).map fun l => { l with after := some i }
      else cells.get? j) :
    Linked grown (first.or (some i)) (some i) (order ++ [i]) := by
  refine ⟨?_, ?_, ?_, by simp, ?_⟩
  · rw [List.nodup_append]
    refine ⟨h.nodup, by simp, fun b hb c hc hbc => hi ?_⟩
    rwa [← List.mem_singleton.mp hc, ← hbc]
  · intro j l hj
    rw [hg] at hj
    by_cases hji : j = i
    · simp [hji]
    · cases hc : cells.get? j with
      | none => simp [hji, hc] at hj
      | some k => exact List.mem_append_left _ (h.complete j k hc)
  · rw [h.first_eq]
    cases order <;> simp
  · intro front j back he
    rw [hg]
    rcases List.eq_nil_or_concat back with rfl | ⟨back, k, rfl⟩
    · obtain ⟨rfl, rfl⟩ : order = front ∧ i = j := by simpa using he
      exact ⟨a, by simp [← h.last_eq]⟩
    · obtain ⟨ho, rfl⟩ : order = front ++ j :: back ∧ i = k := by
        have hs : front ++ j :: (back ++ [k]) = (front ++ j :: back) ++ [k] := by simp
        rwa [List.concat_eq_append, hs, List.append_singleton_inj] at he
      have hji : j ≠ i := fun hx => hi (hx ▸ ho ▸ by simp)
      obtain ⟨b, hb⟩ := h.link front j back ho
      refine ⟨b, ?_⟩
      simp only [hji, if_false, hb]
      by_cases hlast : last = some j
      · have hback : back = [] := by
          rw [h.last_eq, ho] at hlast
          rcases List.eq_nil_or_concat back with rfl | ⟨xs, x, rfl⟩
          · rfl
          · have hs : front ++ j :: (xs ++ [x]) = (front ++ j :: xs) ++ [x] := by simp
            have hx : x = j := by
              rw [List.concat_eq_append, hs, List.getLast?_concat] at hlast
              exact Option.some.inj hlast
            have hn := h.nodup
            rw [ho, hx] at hn
            simp [List.nodup_append] at hn
        simp [hlast, hback]
      · have hback : back ≠ [] := by
          rintro rfl
          exact hlast (by rw [h.last_eq, ho]; simp)
        cases back with
        | nil => exact absurd rfl hback
        | cons x xs => simp [hlast]

theorem push (h : Linked cells first last order) (a : α) :
    Linked ((cells.insert ⟨a, last, none⟩).setAfter last (some cells.vacancy))
      (first.or (some cells.vacancy)) (some cells.vacancy) (order ++ [cells.vacancy]) := by
  refine h.grow (a := a) h.vacancy_not_mem fun j => ?_
  have hl : last ≠ some cells.vacancy := by
    rw [h.last_eq]
    exact fun he => h.vacancy_not_mem (List.mem_of_getLast? he)
  rw [Cells.get?_setAfter, Cells.get?_insert]
  by_cases hj : j = cells.vacancy
  · simp [hj, hl]
  · simp [hj]

theorem detach (h : Linked cells first last order) {i : Nat} {l : Link α}
    (hi : cells.get? i = some l) :
    Linked (((cells.remove i).setAfter l.before l.after).setBefore l.after l.before)
      (if l.before.isNone then l.after else first) (if l.after.isNone then l.before else last)
      (order.erase i) := by
  obtain ⟨p, q, rfl⟩ := List.append_of_mem (h.complete i l hi)
  obtain ⟨a, ha⟩ := h.link p i q rfl
  obtain rfl : ⟨a, p.getLast?, q.head?⟩ = l := by simpa [hi] using ha.symm
  have hn := h.nodup
  obtain ⟨hnp, hnq, hne⟩ := List.nodup_append.mp hn
  have hp : i ∉ p := fun hm => hne i hm i (by simp) rfl
  have hq : i ∉ q := (List.nodup_cons.mp hnq).1
  have hpq : ∀ j ∈ p, j ∉ q := fun j hj hm => hne j hj j (by simp [hm]) rfl
  have he : (p ++ i :: q).erase i = p ++ q := by
    rw [List.erase_append_right _ hp, List.erase_cons_head]
  rw [he]
  refine ⟨?_, ?_, ?_, ?_, ?_⟩
  · exact List.Nodup.sublist (by simp) hn
  · intro j k hj
    rw [Cells.get?_setBefore, Cells.get?_setAfter, Cells.get?_remove] at hj
    by_cases hji : j = i
    · simp [hji] at hj
    · cases hg : cells.get? j with
      | none => simp [hji, hg] at hj
      | some m =>
        have := h.complete j m hg
        simpa [hji] using this
  · cases p with
    | nil => simp
    | cons x xs => simp [h.first_eq, List.getLast?_cons]
  · rcases List.eq_nil_or_concat q with rfl | ⟨xs, x, rfl⟩
    · simp
    · have hs : p ++ i :: (xs ++ [x]) = (p ++ i :: xs) ++ [x] := by simp
      cases xs <;> simp [h.last_eq, List.getLast?_append, List.getLast?_cons]
  · intro front j back hf
    rw [Cells.get?_setBefore, Cells.get?_setAfter, Cells.get?_remove]
    obtain ⟨r, hpr, hrq⟩ | ⟨r, hfr, hqr⟩ := List.append_eq_append_iff.mp hf.symm
    · cases r with
      | nil =>
        obtain rfl : front = p := by simpa using hpr.symm
        obtain rfl : q = j :: back := by simpa using hrq.symm
        obtain ⟨b, hb⟩ := h.link (front ++ [i]) j back (by simp)
        have hji : j ≠ i := fun hx => hq (by simp [hx])
        have hlast : front.getLast? ≠ some j := fun hx => hpq j (List.mem_of_getLast? hx) (by simp)
        exact ⟨b, by simp [hji, hb, hlast]⟩
      | cons k r =>
        obtain ⟨rfl, rfl⟩ : j = k ∧ back = r ++ q := by simpa using hrq
        obtain ⟨b, hb⟩ := h.link front j (r ++ i :: q) (by simp [hpr])
        have hjp : j ∈ p := by simp [hpr]
        have hji : j ≠ i := fun hx => hp (hx ▸ hjp)
        have hhead : q.head? ≠ some j := fun hx => hpq j hjp (List.mem_of_mem_head? hx)
        refine ⟨b, ?_⟩
        rcases List.eq_nil_or_concat r with rfl | ⟨xs, x, rfl⟩
        · simp [hji, hb, hhead, hpr]
        · have hx : x ≠ j := by
            intro hx
            rw [hpr] at hnp
            simp [hx, List.nodup_append] at hnp
          cases xs <;> simp [hji, hb, hhead, hpr, List.getLast?_append, List.getLast?_cons, hx]
    · obtain ⟨b, hb⟩ := h.link (p ++ i :: r) j back (by simp [hqr])
      have hjq : j ∈ q := by simp [hqr]
      have hji : j ≠ i := fun hx => hq (hx ▸ hjq)
      have hlast : p.getLast? ≠ some j := fun hx => hpq j (List.mem_of_getLast? hx) hjq
      refine ⟨b, ?_⟩
      cases r with
      | nil => simp [hji, hb, hlast, hqr, hfr]
      | cons x xs =>
        have hx : x ≠ j := by
          intro hx
          have hnq := (List.nodup_cons.mp hnq).2
          rw [hqr] at hnq
          simp [hx] at hnq
        simp [hji, hb, hlast, hqr, hfr, hx, List.getLast?_append, List.getLast?_cons]

theorem modify (h : Linked cells first last order) (i : Nat) (f : α → α) :
    Linked (cells.modify i fun l => { l with value := f l.value }) first last order := by
  refine ⟨h.nodup, ?_, h.first_eq, h.last_eq, ?_⟩
  · intro j l hj
    rw [Cells.get?_modify] at hj
    cases hg : cells.get? j with
    | none => simp [hg] at hj
    | some m => exact h.complete j m hg
  · intro front j back hf
    obtain ⟨a, ha⟩ := h.link front j back hf
    rw [Cells.get?_modify, ha]
    by_cases hj : j = i
    · exact ⟨f a, by simp [hj]⟩
    · exact ⟨a, by simp [hj]⟩

theorem map (h : Linked cells first last order) (f : α → α) :
    Linked (cells.map fun l => { l with value := f l.value }) first last order := by
  refine ⟨h.nodup, ?_, h.first_eq, h.last_eq, ?_⟩
  · intro j l hj
    rw [Cells.get?_map] at hj
    obtain ⟨m, hm, -⟩ := Option.map_eq_some_iff.mp hj
    exact h.complete j m hm
  · intro front j back hf
    obtain ⟨a, ha⟩ := h.link front j back hf
    exact ⟨f a, by rw [Cells.get?_map, ha]; rfl⟩

end Linked

namespace Chain

variable {α : Type}

/-- The value in a cell. -/
def get? (c : Chain α) (i : Nat) : Option α :=
  (c.cells.get? i).map Link.value

/-- The cell inserted after cell `i`. -/
def next? (c : Chain α) (i : Nat) : Option Nat :=
  (c.cells.get? i).bind Link.after

/-- The cell inserted before cell `i`. -/
def prev? (c : Chain α) (i : Nat) : Option Nat :=
  (c.cells.get? i).bind Link.before

/-- Appends a value as the newest one. -/
def push (c : Chain α) (a : α) : Chain α where
  cells := (c.cells.insert ⟨a, c.last, none⟩).setAfter c.last (some c.cells.vacancy)
  first := c.first.or (some c.cells.vacancy)
  last := some c.cells.vacancy
  linked := by
    obtain ⟨order, h⟩ := c.linked
    exact ⟨_, h.push a⟩

/-- Unlinks a cell; every other cell keeps its number and its place. -/
def detach (c : Chain α) (i : Nat) : Chain α :=
  match hi : c.cells.get? i with
  | none => c
  | some l =>
    { cells := ((c.cells.remove i).setAfter l.before l.after).setBefore l.after l.before
      first := if l.before.isNone then l.after else c.first
      last := if l.after.isNone then l.before else c.last
      linked := by
        obtain ⟨order, h⟩ := c.linked
        exact ⟨_, h.detach hi⟩ }

/-- Changes the value in a cell, in place. -/
def modify (c : Chain α) (i : Nat) (f : α → α) : Chain α where
  cells := c.cells.modify i fun l => { l with value := f l.value }
  first := c.first
  last := c.last
  linked := by
    obtain ⟨order, h⟩ := c.linked
    exact ⟨_, h.modify i f⟩

/-- Changes every value, in place. -/
def map (c : Chain α) (f : α → α) : Chain α where
  cells := c.cells.map fun l => { l with value := f l.value }
  first := c.first
  last := c.last
  linked := by
    obtain ⟨order, h⟩ := c.linked
    exact ⟨_, h.map f⟩

/-- The cells met by at most `fuel` steps. -/
def walk (step : Nat → Option Nat) : Nat → Option Nat → List Nat
  | 0, _ => []
  | _, none => []
  | fuel + 1, some i => i :: walk step fuel (step i)

/-- The occupied cells, oldest first: a chain never has more of them than its cells has cells. -/
def forward (c : Chain α) : List Nat :=
  walk c.next? c.cells.capacity c.first

/-- The occupied cells, newest first. -/
def backward (c : Chain α) : List Nat :=
  walk c.prev? c.cells.capacity c.last

/-- The values, oldest first. -/
def toList (c : Chain α) : List α :=
  c.forward.filterMap c.get?

/-- The oldest cell whose value satisfies `p`. -/
def findOldest? (c : Chain α) (p : α → Bool) : Option Nat :=
  c.forward.find? fun i => (c.get? i).any p

/-- The newest cell whose value satisfies `p`. -/
def findNewest? (c : Chain α) (p : α → Bool) : Option Nat :=
  c.backward.find? fun i => (c.get? i).any p

end Chain

end FileDepot
