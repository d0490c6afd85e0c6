import Mathlib.Data.List.Find
import FileDepot.Proofs.Chain.Order

/-! # Chains over any slab

A chain needs little of the cells it keeps its values in: that an insertion hands out a number not
in use, and that what is done to one cell leaves the others alone. Over every slab with these laws,
pushing and detaching in any order keeps the links consistent, every walk along them ends, and no
cell is asked for that is not occupied. -/

namespace FileDepot

/-- Numbered cells with occupants in `β`, as any supplier may keep them in a state `σ`. An access to
a cell that is not occupied fails. -/
structure Slab (σ β : Type) where
  empty : σ
  get? : σ → Nat → Option β
  /-- Occupies a cell of the slab's own choice, and gives its number. -/
  insert : σ → β → Nat × σ
  remove? : σ → Nat → Option (β × σ)
  modify? : σ → Nat → (β → β) → Option σ

/-- What a chain relies on. -/
structure Slab.Lawful {σ β : Type} (S : Slab σ β) : Prop where
  get?_empty : ∀ i, S.get? S.empty i = none
  /-- An insertion hands out a number that is not in use. -/
  get?_fresh : ∀ s b, S.get? s (S.insert s b).1 = none
  get?_insert : ∀ s b j,
    S.get? (S.insert s b).2 j = if j = (S.insert s b).1 then some b else S.get? s j
  remove?_eq : ∀ s i b, S.get? s i = some b → ∃ u, S.remove? s i = some (b, u) ∧
    ∀ j, S.get? u j = if j = i then none else S.get? s j
  modify?_eq : ∀ s i b f, S.get? s i = some b → ∃ u, S.modify? s i f = some u ∧
    ∀ j, S.get? u j = if j = i then some (f b) else S.get? s j

/-- A chain whose cells are in a slab. -/
structure Strand (σ : Type) where
  cells : σ
  first : Option Nat
  last : Option Nat

/-! ## The operations, with every access checked -/

namespace Slab

variable {σ α : Type} (S : Slab σ (Link α))

/-- Makes `after` the right neighbour of the cell, if one is given. -/
def setAfter? (s : σ) (cell after : Option Nat) : Option σ :=
  match cell with
  | none => some s
  | some i => S.modify? s i fun l => { l with after }

/-- Makes `before` the left neighbour of the cell, if one is given. -/
def setBefore? (s : σ) (cell before : Option Nat) : Option σ :=
  match cell with
  | none => some s
  | some i => S.modify? s i fun l => { l with before }

/-- Steps along the links from a cell meet just these cells, all of them occupied and with these
values, and then end. -/
inductive Walks (s : σ) (step : Link α → Option Nat) : Option Nat → List (Nat × α) → Prop where
  | ended : Walks s step none []
  | next {i : Nat} {l : Link α} {es : List (Nat × α)} : S.get? s i = some l →
      Walks s step (step l) es → Walks s step (some i) ((i, l.value) :: es)

/-- A search from a cell on, which looks at occupied cells only, ends with this answer: the first
cell whose value satisfies `p`, if there is one. -/
inductive Seeks (s : σ) (p : α → Bool) : Option Nat → Option Nat → Prop where
  | ended : Seeks s p none none
  | found {i : Nat} {l : Link α} : S.get? s i = some l → p l.value = true →
      Seeks s p (some i) (some i)
  | passed {i : Nat} {l : Link α} {found : Option Nat} : S.get? s i = some l →
      p l.value = false → Seeks s p l.after found → Seeks s p (some i) found

end Slab

namespace Strand

variable {σ α : Type} (S : Slab σ (Link α))

/-- A chain without values. -/
def new : Strand σ :=
  ⟨S.empty, none, none⟩

/-- Appends a value as the newest one, and gives its cell. -/
def push? (t : Strand σ) (a : α) : Option (Nat × Strand σ) := do
  let (i, cells) := S.insert t.cells ⟨a, t.last, none⟩
  let cells ← S.setAfter? cells t.last (some i)
  some (i, { cells, first := t.first.or (some i), last := some i })

/-- Unlinks a cell, and gives its value. -/
def detach? (t : Strand σ) (i : Nat) : Option (α × Strand σ) := do
  let (l, cells) ← S.remove? t.cells i
  let cells ← S.setAfter? cells l.before l.after
  let cells ← S.setBefore? cells l.after l.before
  some (l.value, {
    cells
    first := if l.before.isNone then l.after else t.first
    last := if l.after.isNone then l.before else t.last })

/-- A search from the oldest cell on ends with this answer. -/
def Finds (t : Strand σ) (p : α → Bool) (found : Option Nat) : Prop :=
  S.Seeks t.cells p t.first found

/-- Walking either way along the links meets just these entries, and ends. -/
structure Represents (t : Strand σ) (es : List (Nat × α)) : Prop where
  forward : S.Walks t.cells Link.after t.first es
  backward : S.Walks t.cells Link.before t.last es.reverse

end Strand

/-! ## Links over a slab -/

namespace Slab.Lawful

variable {σ α : Type} {S : Slab σ (Link α)}

theorem modify?_spec (hS : S.Lawful) {s : σ} {i : Nat} {l : Link α} (change : Link α → Link α)
    (hl : S.get? s i = some l) : ∃ u, S.modify? s i change = some u ∧
      ∀ j, S.get? u j = if some i = some j then (S.get? s j).map change else S.get? s j := by
  obtain ⟨u, hu, hget⟩ := hS.modify?_eq s i l change hl
  refine ⟨u, hu, fun j => (hget j).trans ?_⟩
  by_cases hj : j = i
  · simp [hj, hl]
  · simp [hj, Ne.symm hj]

theorem setAfter?_eq (hS : S.Lawful) {s : σ} {cell : Option Nat} (after : Option Nat)
    (hc : ∀ i, cell = some i → ∃ l, S.get? s i = some l) :
    ∃ u, S.setAfter? s cell after = some u ∧ ∀ j, S.get? u j =
      if cell = some j then (S.get? s j).map fun l => { l with after } else S.get? s j := by
  cases cell with
  | none => exact ⟨s, rfl, fun j => by simp⟩
  | some i =>
      obtain ⟨l, hl⟩ := hc i rfl
      exact hS.modify?_spec (fun l => { l with after }) hl

theorem setBefore?_eq (hS : S.Lawful) {s : σ} {cell : Option Nat} (before : Option Nat)
    (hc : ∀ i, cell = some i → ∃ l, S.get? s i = some l) :
    ∃ u, S.setBefore? s cell before = some u ∧ ∀ j, S.get? u j =
      if cell = some j then (S.get? s j).map fun l => { l with before } else S.get? s j := by
  cases cell with
  | none => exact ⟨s, rfl, fun j => by simp⟩
  | some i =>
      obtain ⟨l, hl⟩ := hc i rfl
      exact hS.modify?_spec (fun l => { l with before }) hl

end Slab.Lawful

namespace Slab

variable {σ α : Type} {S : Slab σ (Link α)} {s : σ}

theorem Walks.unique {step : Link α → Option Nat} {cell : Option Nat} {es es' : List (Nat × α)}
    (h : S.Walks s step cell es) (h' : S.Walks s step cell es') : es = es' := by
  induction h generalizing es' with
  | ended =>
      cases h'
      rfl
  | next hl _ ih =>
      cases h' with
      | next hl' hrest =>
          obtain rfl := Option.some.inj (hl.symm.trans hl')
          rw [ih hrest]

/-- A walk whose steps lead from each entry of a list to the next one meets the whole list. -/
theorem walks_of_steps {step : Link α → Option Nat} {es : List (Nat × α)}
    (hs : ∀ front i a back, es = front ++ (i, a) :: back → ∃ l, S.get? s i = some l ∧
      l.value = a ∧ step l = back.head?.map Prod.fst) :
    S.Walks s step (es.head?.map Prod.fst) es := by
  induction es with
  | nil => exact .ended
  | cons e es ih =>
      obtain ⟨l, hl, hv, hstep⟩ := hs [] e.1 e.2 es rfl
      have hrest := ih fun front i a back he => hs (e :: front) i a back (by rw [he]; rfl)
      have hw := Walks.next hl (hstep ▸ hrest)
      rw [hv] at hw
      exact hw

theorem seeks_of_steps (p : α → Bool) {es : List (Nat × α)}
    (hs : ∀ front i a back, es = front ++ (i, a) :: back → ∃ l, S.get? s i = some l ∧
      l.value = a ∧ l.after = back.head?.map Prod.fst) :
    S.Seeks s p (es.head?.map Prod.fst) ((es.find? fun e => p e.2).map Prod.fst) := by
  induction es with
  | nil => exact .ended
  | cons e es ih =>
      obtain ⟨l, hl, hv, hstep⟩ := hs [] e.1 e.2 es rfl
      have hrest := ih fun front i a back he => hs (e :: front) i a back (by rw [he]; rfl)
      rw [List.find?_cons]
      cases hp : p e.2 with
      | true => exact .found hl (hv ▸ hp)
      | false => exact .passed hl (hv ▸ hp) (hstep ▸ hrest)

end Slab

/-! ## The entries of a chain -/

namespace Chain

variable {α : Type} {c : Chain α}

/-- The values with their cells, oldest first. -/
def entries (c : Chain α) : List (Nat × α) :=
  c.forward.filterMap fun i => (c.get? i).map (i, ·)

theorem mem_entries_iff {i : Nat} {a : α} : (i, a) ∈ c.entries ↔ c.get? i = some a := by
  constructor
  · intro h
    obtain ⟨j, -, hj⟩ := List.mem_filterMap.mp h
    obtain ⟨b, hb, he⟩ := Option.map_eq_some_iff.mp hj
    obtain ⟨rfl, rfl⟩ := Prod.mk.inj he
    exact hb
  · intro h
    exact List.mem_filterMap.mpr ⟨i, mem_forward_iff.mpr ⟨a, h⟩, by rw [h]; rfl⟩

theorem map_fst_entries (c : Chain α) : c.entries.map Prod.fst = c.forward := by
  rw [entries, List.map_filterMap]
  have hsome : ∀ i ∈ c.forward, ((c.get? i).map (i, ·)).map Prod.fst = some i := by
    intro i hi
    obtain ⟨a, ha⟩ := mem_forward_iff.mp hi
    rw [ha]
    rfl
  rw [List.filterMap_congr hsome, List.filterMap_some]

theorem nodup_entries (c : Chain α) : (c.entries.map Prod.fst).Nodup :=
  c.map_fst_entries ▸ c.nodup_forward

/-- A chain's cell names the neighbours of its entry. -/
theorem cell_of_entries_eq {front back : List (Nat × α)} {i : Nat} {a : α}
    (h : c.entries = front ++ (i, a) :: back) : c.cells.get? i =
      some ⟨a, front.getLast?.map Prod.fst, back.head?.map Prod.fst⟩ := by
  have hf : c.forward = front.map Prod.fst ++ i :: back.map Prod.fst := by
    rw [← map_fst_entries, h, List.map_append, List.map_cons]
  obtain ⟨b, hb⟩ := c.linked_forward.link _ _ _ hf
  have ha : c.get? i = some a := mem_entries_iff.mp (h ▸ by simp)
  obtain rfl : b = a := by simpa [get?, hb] using ha
  rw [hb, List.getLast?_map, List.head?_map]

theorem entries_append {d : Chain α} {i : Nat} {a : α} (hi : i ∉ c.forward)
    (hd : d.forward = c.forward ++ [i])
    (hvalue : ∀ j, d.get? j = if j = i then some a else c.get? j) :
    d.entries = c.entries ++ [(i, a)] := by
  rw [entries, hd, List.filterMap_append]
  congr 1
  · refine List.filterMap_congr fun j hj => ?_
    have hne : j ≠ i := fun he => hi (he ▸ hj)
    rw [hvalue, if_neg hne]
  · simp [hvalue]

theorem entries_detach_eq_filter (c : Chain α) (i : Nat) :
    (c.detach i).entries = c.entries.filter (·.1 ≠ i) := by
  rw [entries, forward_detach, c.nodup_forward.erase_eq_filter, List.filterMap_filter, entries,
    List.filter_filterMap]
  refine List.filterMap_congr fun j _ => ?_
  by_cases hj : j = i
  · cases hg : c.get? j <;> simp [hj, Option.filter]
  · cases hg : c.get? j <;> simp [get?_detach, hj, hg, Option.filter]

/-- Just the entry of the cell is taken out. -/
theorem entries_detach {front back : List (Nat × α)} {i : Nat} {a : α}
    (h : c.entries = front ++ (i, a) :: back) : (c.detach i).entries = front ++ back := by
  have hn := c.nodup_entries
  rw [h, List.map_append, List.map_cons] at hn
  obtain ⟨-, hback, hfront⟩ := List.nodup_append.mp hn
  have hkeep : ∀ es : List (Nat × α), (∀ e ∈ es, e.1 ≠ i) → es.filter (·.1 ≠ i) = es :=
    fun es hes => List.filter_eq_self.mpr fun e he => decide_eq_true (hes e he)
  rw [entries_detach_eq_filter, h, List.filter_append, List.filter_cons_of_neg (by simp)]
  congr 1
  · exact hkeep front fun e he => hfront e.1 (List.mem_map_of_mem he) i List.mem_cons_self
  · refine hkeep back fun e he heq => (List.nodup_cons.mp hback).1 ?_
    have hm : e.1 ∈ back.map Prod.fst := List.mem_map_of_mem he
    rwa [heq] at hm

theorem detach_eq {i : Nat} {l : Link α} (h : c.cells.get? i = some l) :
    (c.detach i).cells =
        ((c.cells.remove i).setAfter l.before l.after).setBefore l.after l.before ∧
      (c.detach i).first = (if l.before.isNone then l.after else c.first) ∧
      (c.detach i).last = if l.after.isNone then l.before else c.last := by
  unfold detach
  split
  · rename_i hn
    simp [hn] at h
  · rename_i k hk
    obtain rfl : k = l := Option.some.inj (hk.symm.trans h)
    exact ⟨rfl, rfl, rfl⟩

end Chain

/-- Every look-up that finds nothing from some number on is that of some cells. -/
theorem Cells.exists_of_look {β : Type} {look : Nat → Option β} {n : Nat}
    (h : ∀ j, n ≤ j → look j = none) : ∃ s : Cells β, ∀ j, s.get? j = look j := by
  refine ⟨⟨Array.ofFn fun k : Fin n => look k⟩, fun j => ?_⟩
  unfold Cells.get?
  by_cases hj : j < n
  · simp [hj]
  · simp [hj, h j (Nat.le_of_not_lt hj)]

/-! ## A strand stands for a chain -/

namespace Strand

variable {σ α : Type} {S : Slab σ (Link α)} {t : Strand σ} {c : Chain α}

/-- The same links as in a chain, in a slab. -/
structure Shows (S : Slab σ (Link α)) (t : Strand σ) (c : Chain α) : Prop where
  get?_eq : ∀ i, S.get? t.cells i = c.cells.get? i
  first_eq : t.first = c.first
  last_eq : t.last = c.last

theorem shows_new (hS : S.Lawful) : (new S).Shows S {} :=
  ⟨fun i => (hS.get?_empty i).trans (Cells.get?_empty i).symm, rfl, rfl⟩

theorem Shows.get?_value (h : t.Shows S c) (i : Nat) :
    (S.get? t.cells i).map Link.value = c.get? i := by
  rw [h.get?_eq, Chain.get?]

theorem Shows.first_eq_head? (h : t.Shows S c) : t.first = c.entries.head?.map Prod.fst := by
  rw [h.first_eq, c.first_eq_head?_forward, ← c.map_fst_entries, List.head?_map]

theorem Shows.represents (h : t.Shows S c) : t.Represents S c.entries := by
  constructor
  · rw [h.first_eq_head?]
    refine Slab.walks_of_steps fun front i a back he => ?_
    exact ⟨_, (h.get?_eq i).trans (Chain.cell_of_entries_eq he), rfl, rfl⟩
  · have hlast : t.last = c.entries.reverse.head?.map Prod.fst := by
      rw [h.last_eq, c.linked_forward.last_eq, ← c.map_fst_entries, List.getLast?_map,
        List.head?_reverse]
    rw [hlast]
    refine Slab.walks_of_steps fun front i a back he => ?_
    have hr : c.entries = back.reverse ++ (i, a) :: front.reverse := by
      simpa using congrArg List.reverse he
    refine ⟨_, (h.get?_eq i).trans (Chain.cell_of_entries_eq hr), rfl, ?_⟩
    rw [List.getLast?_reverse]

theorem Shows.finds (h : t.Shows S c) (p : α → Bool) :
    t.Finds S p ((c.entries.find? fun e => p e.2).map Prod.fst) := by
  rw [Finds, h.first_eq_head?]
  refine Slab.seeks_of_steps p fun front i a back he => ?_
  exact ⟨_, (h.get?_eq i).trans (Chain.cell_of_entries_eq he), rfl, rfl⟩

theorem Shows.not_mem_of_get?_eq_none (h : t.Shows S c) {i : Nat} (hi : S.get? t.cells i = none) :
    i ∉ c.forward := by
  intro hm
  obtain ⟨l, hl⟩ := c.linked_forward.live hm
  simp [← h.get?_eq, hi] at hl

theorem Shows.last_mem (h : t.Shows S c) {i : Nat} (hi : t.last = some i) : i ∈ c.forward := by
  rw [h.last_eq, c.linked_forward.last_eq] at hi
  exact List.mem_of_getLast? hi

theorem Shows.get?_of_capacity_le (h : t.Shows S c) {i : Nat} (hi : c.cells.capacity ≤ i) :
    S.get? t.cells i = none := by
  rw [h.get?_eq]
  by_contra hsome
  obtain ⟨l, hl⟩ := Option.ne_none_iff_exists'.mp hsome
  exact absurd (Cells.lt_capacity_of_get? hl) (Nat.not_lt.mpr hi)

/-- The slab hands out a number of its own choice, so the chain that a strand stands for after a
push need not be the one that a push leads to. -/
theorem Shows.push (hS : S.Lawful) (h : t.Shows S c) (a : α) :
    ∃ i u d, t.push? S a = some (i, u) ∧ i ∉ c.forward ∧ u.Shows S d ∧
      d.entries = c.entries ++ [(i, a)] := by
  generalize hins : S.insert t.cells ⟨a, t.last, none⟩ = out
  obtain ⟨i, cells⟩ := out
  have hfresh := hS.get?_fresh t.cells ⟨a, t.last, none⟩
  have hinsert := hS.get?_insert t.cells ⟨a, t.last, none⟩
  simp only [hins] at hfresh hinsert
  have hi : i ∉ c.forward := h.not_mem_of_get?_eq_none hfresh
  have hlast : ∀ j, t.last = some j → j ≠ i := fun j hj he => hi (he ▸ h.last_mem hj)
  have hlive : ∀ j, t.last = some j → ∃ l, S.get? cells j = some l := by
    intro j hj
    obtain ⟨l, hl⟩ := c.linked_forward.live (h.last_mem hj)
    exact ⟨l, by rw [hinsert, if_neg (hlast j hj), h.get?_eq, hl]⟩
  obtain ⟨cells', hcells, hget⟩ := hS.setAfter?_eq (some i) hlive
  -- The look-up of the slab is that of some cells, since it was before.
  have hbound : ∀ j, max c.cells.capacity (i + 1) ≤ j → S.get? cells' j = none := by
    intro j hj
    have hne : j ≠ i := by omega
    rw [hget, hinsert, if_neg hne, h.get?_of_capacity_le (by omega)]
    simp
  obtain ⟨grown, hgrown⟩ := Cells.exists_of_look hbound
  have hlinked : Linked grown (c.first.or (some i)) (some i) (c.forward ++ [i]) := by
    refine c.linked_forward.grow (a := a) hi fun j => ?_
    rw [hgrown, hget, hinsert, h.get?_eq, h.last_eq]
    by_cases hj : j = i
    · have hne : c.last ≠ some i := fun he => hlast i (h.last_eq.trans he) rfl
      simp [hj, hne]
    · simp [hj]
  let d : Chain α := ⟨grown, _, _, _, hlinked⟩
  have hentries : d.entries = c.entries ++ [(i, a)] := by
    have hd : d.forward = c.forward ++ [i] := Chain.forward_eq_of_linked (c := d) hlinked
    have hvalue : ∀ j, d.get? j = if j = i then some a else c.get? j := by
      intro j
      rw [Chain.get?, hgrown, hget, hinsert, h.get?_eq]
      by_cases hj : j = i
      · have hne : t.last ≠ some i := fun he => hlast i he rfl
        simp [hj, hne]
      · rw [if_neg hj, if_neg hj, Chain.get?]
        split <;> cases c.cells.get? j <;> rfl
    exact Chain.entries_append hi hd hvalue
  refine ⟨i, ⟨cells', t.first.or (some i), some i⟩, d, ?_, hi, ?_, hentries⟩
  · simp only [push?, hins, hcells, Option.bind_eq_bind, Option.bind_some]
  · exact ⟨fun j => (hgrown j).symm, by rw [h.first_eq], rfl⟩

/-- Detaching an occupied cell succeeds, and does what it does to the chain. -/
theorem Shows.detach (hS : S.Lawful) (h : t.Shows S c) {i : Nat} {a : α}
    (ha : c.get? i = some a) : ∃ u, t.detach? S i = some (a, u) ∧ u.Shows S (c.detach i) := by
  obtain ⟨front, back, he⟩ := List.append_of_mem (Chain.mem_entries_iff.mpr ha)
  have hl := Chain.cell_of_entries_eq he
  generalize hb : front.getLast?.map Prod.fst = before at hl
  generalize hn : back.head?.map Prod.fst = after at hl
  obtain ⟨hcells, hfirst, hlast⟩ := Chain.detach_eq hl
  obtain ⟨removed, hremove, hremoved⟩ := hS.remove?_eq t.cells i _ ((h.get?_eq i).trans hl)
  -- The neighbours are other entries, so their cells stay occupied.
  have hother : ∀ e ∈ front ++ back, ∃ l, S.get? removed e.1 = some l := by
    intro e hm
    have hentry : (e.1, e.2) ∈ (c.detach i).entries := Chain.entries_detach he ▸ hm
    have hg := Chain.mem_entries_iff.mp hentry
    rw [Chain.get?_detach] at hg
    have hne : e.1 ≠ i := fun hx => by simp [hx] at hg
    rw [if_neg hne] at hg
    obtain ⟨l, hl, -⟩ := Option.map_eq_some_iff.mp hg
    exact ⟨l, by rw [hremoved, if_neg hne, h.get?_eq, hl]⟩
  have hleft : ∀ j, before = some j → ∃ l, S.get? removed j = some l := by
    intro j hj
    obtain ⟨e, hm, rfl⟩ := Option.map_eq_some_iff.mp (hb.trans hj)
    exact hother e (List.mem_append_left _ (List.mem_of_getLast? hm))
  obtain ⟨joined, hafter, hjoined⟩ := hS.setAfter?_eq after hleft
  have hright : ∀ j, after = some j → ∃ l, S.get? joined j = some l := by
    intro j hj
    obtain ⟨e, hm, rfl⟩ := Option.map_eq_some_iff.mp (hn.trans hj)
    obtain ⟨l, hl⟩ := hother e (List.mem_append_right _ (List.mem_of_mem_head? hm))
    rw [hjoined, hl]
    split
    · exact ⟨_, rfl⟩
    · exact ⟨l, rfl⟩
  obtain ⟨closed, hbefore, hclosed⟩ := hS.setBefore?_eq before hright
  refine ⟨⟨closed, if before.isNone then after else t.first,
    if after.isNone then before else t.last⟩, ?_, ?_⟩
  · simp only [detach?, hremove, hafter, hbefore, Option.bind_eq_bind, Option.bind_some]
  · refine ⟨fun j => ?_, ?_, ?_⟩
    · rw [hcells, Cells.get?_setBefore, Cells.get?_setAfter, Cells.get?_remove, ← h.get?_eq,
        ← hremoved, ← hjoined, ← hclosed]
    · rw [hfirst, ← h.first_eq]
    · rw [hlast, ← h.last_eq]

end Strand

/-! ## The cells of a bucket are a slab -/

/-- The cells as a slab: the lowest vacant one is handed out. -/
def Cells.slab (β : Type) : Slab (Cells β) β where
  empty := {}
  get? := Cells.get?
  insert s b := (s.vacancy, s.insert b)
  remove? s i := (s.get? i).map fun b => (b, s.remove i)
  modify? s i f := (s.get? i).map fun _ => s.modify i f

theorem Cells.lawful_slab (β : Type) : (Cells.slab β).Lawful where
  get?_empty := Cells.get?_empty
  get?_fresh s _ := s.get?_vacancy
  get?_insert s b j := s.get?_insert b j
  remove?_eq s i b h := ⟨s.remove i, congrArg (Option.map fun b => (b, s.remove i)) h,
    s.get?_remove i⟩
  modify?_eq s i b f h := by
    refine ⟨s.modify i f, congrArg (Option.map fun _ => s.modify i f) h, fun j => ?_⟩
    refine (s.get?_modify i f j).trans ?_
    by_cases hj : j = i
    · rw [if_pos hj, if_pos hj, hj]
      exact congrArg (Option.map f) h
    · rw [if_neg hj, if_neg hj]
      rfl

namespace Chain

variable {α : Type}

/-- A chain as a strand in its own cells. -/
def strand (c : Chain α) : Strand (Cells (Link α)) :=
  ⟨c.cells, c.first, c.last⟩

theorem shows_strand (c : Chain α) : c.strand.Shows (Cells.slab _) c :=
  ⟨fun _ => rfl, rfl, rfl⟩

theorem setAfter?_slab {s u : Cells (Link α)} {cell after : Option Nat}
    (h : (Cells.slab _).setAfter? s cell after = some u) : u = s.setAfter cell after := by
  cases cell with
  | none => exact (Option.some.inj h).symm
  | some i =>
      obtain ⟨l, -, rfl⟩ := Option.map_eq_some_iff.mp h
      rfl

theorem setBefore?_slab {s u : Cells (Link α)} {cell before : Option Nat}
    (h : (Cells.slab _).setBefore? s cell before = some u) : u = s.setBefore cell before := by
  cases cell with
  | none => exact (Option.some.inj h).symm
  | some i =>
      obtain ⟨l, -, rfl⟩ := Option.map_eq_some_iff.mp h
      rfl

/-- A chain pushes as a strand does, which checks every access. -/
theorem push?_strand (c : Chain α) (a : α) :
    c.strand.push? (Cells.slab _) a = some (c.cells.vacancy, (c.push a).strand) := by
  obtain ⟨i, u, -, hu, -⟩ := c.shows_strand.push (Cells.lawful_slab _) a
  rw [hu]
  obtain ⟨cells, hcells, he⟩ := Option.bind_eq_some_iff.mp hu
  obtain ⟨rfl, rfl⟩ := Prod.mk.inj (Option.some.inj he)
  rw [setAfter?_slab hcells]
  rfl

/-- A chain detaches as a strand does, which checks every access. -/
theorem detach?_strand {c : Chain α} {i : Nat} {a : α} (h : c.get? i = some a) :
    c.strand.detach? (Cells.slab _) i = some (a, (c.detach i).strand) := by
  obtain ⟨u, hu, hshows⟩ := c.shows_strand.detach (Cells.lawful_slab _) h
  obtain ⟨l, hl, -⟩ := Option.map_eq_some_iff.mp h
  obtain ⟨hdetach, -, -⟩ := detach_eq hl
  rw [hu]
  obtain ⟨⟨k, removed⟩, hremove, hu⟩ := Option.bind_eq_some_iff.mp hu
  obtain ⟨m, hm, he⟩ := Option.map_eq_some_iff.mp hremove
  obtain ⟨rfl, rfl⟩ := Prod.mk.inj he
  obtain rfl : m = l := Option.some.inj (hm.symm.trans hl)
  obtain ⟨joined, hjoined, hu⟩ := Option.bind_eq_some_iff.mp hu
  obtain ⟨closed, hclosed, hu⟩ := Option.bind_eq_some_iff.mp hu
  obtain ⟨-, rfl⟩ := Prod.mk.inj (Option.some.inj hu)
  rw [setAfter?_slab hjoined] at hclosed
  have hcells : closed = (c.detach i).cells := (setBefore?_slab hclosed).trans hdetach.symm
  exact congrArg some (congrArg (Prod.mk a)
    (congr (congrArg₂ Strand.mk hcells hshows.first_eq) hshows.last_eq))

/-- A chain searches as a strand does, which checks every access. -/
theorem finds_strand (c : Chain α) (p : α → Bool) :
    c.strand.Finds (Cells.slab _) p (c.findOldest? p) := by
  have hf := c.shows_strand.finds p
  have hv : (c.entries.find? fun e => p e.2) = c.entries.find? fun e => (c.get? e.1).any p := by
    refine List.find?_congr fun e he => ?_
    rw [mem_entries_iff.mp he]
    rfl
  rwa [hv, ← Function.comp_def (fun i => (c.get? i).any p), ← List.find?_map, map_fst_entries] at hf

end Chain

/-! ## Changes in any order -/

/-- A change of a chain. -/
inductive Change (α : Type) where
  | push (a : α)
  | detach (i : Nat)

namespace Strand

variable {σ α : Type} {S : Slab σ (Link α)}

/-- Makes a change, and keeps beside the strand a plain list of its entries: a new one goes to the
end under the number that the push answers, and a detached one is taken out. Only an occupied cell
can be detached. -/
def change? (S : Slab σ (Link α)) (now : Strand σ × List (Nat × α)) :
    Change α → Option (Strand σ × List (Nat × α))
  | .push a => do
    let (i, t) ← now.1.push? S a
    some (t, now.2 ++ [(i, a)])
  | .detach i =>
    if (S.get? now.1.cells i).isSome then do
      let (_, t) ← now.1.detach? S i
      some (t, now.2.filter (·.1 ≠ i))
    else some now

/-- A change succeeds, and the chain it leads to has the entries that are listed. -/
theorem Shows.change (hS : S.Lawful) {t : Strand σ} {c : Chain α} (h : t.Shows S c)
    (x : Change α) : ∃ u d, change? S (t, c.entries) x = some (u, d.entries) ∧ u.Shows S d := by
  cases x with
  | push a =>
      obtain ⟨i, u, d, hu, -, hshows, hd⟩ := h.push hS a
      refine ⟨u, d, ?_, hshows⟩
      simp only [change?, hu, hd, Option.bind_eq_bind, Option.bind_some]
  | detach i =>
      cases hg : c.get? i with
      | none =>
          refine ⟨t, c, ?_, h⟩
          have hnone : (S.get? t.cells i).map Link.value = none := (h.get?_value i).trans hg
          rw [Option.map_eq_none_iff] at hnone
          simp [change?, hnone]
      | some a =>
          obtain ⟨u, hu, hshows⟩ := h.detach hS hg
          refine ⟨u, c.detach i, ?_, hshows⟩
          have hsome : (S.get? t.cells i).map Link.value = some a := (h.get?_value i).trans hg
          obtain ⟨l, hl, -⟩ := Option.map_eq_some_iff.mp hsome
          simp [change?, hl, hu, Chain.entries_detach_eq_filter]

theorem Shows.run (hS : S.Lawful) {t : Strand σ} {c : Chain α} (h : t.Shows S c)
    (changes : List (Change α)) :
    ∃ u d, changes.foldlM (change? S) (t, c.entries) = some (u, d.entries) ∧ u.Shows S d := by
  induction changes generalizing t c with
  | nil => exact ⟨t, c, rfl, h⟩
  | cons x changes ih =>
      obtain ⟨u, d, hx, hd⟩ := h.change hS x
      obtain ⟨v, e, hrest, he⟩ := ih hd
      exact ⟨v, e, by rw [List.foldlM_cons, hx]; exact hrest, he⟩

/-- Over every lawful slab, any pushes and detaches of occupied cells succeed, one after the other:
no cell is asked for that is not occupied. The strand then represents the list kept beside it and no
other: one walk along the links meets its entries in order, the other in reverse, both end, and the
occupied cells are those listed, each once. The next push takes a number not in use and adds its
entry at the end; the next detach gives the value in the cell and takes out just this entry; a search
finds the first entry that satisfies `p`, if there is one. The chains of buckets are such strands
over their own cells. -/
theorem changes_represented (hS : S.Lawful) (changes : List (Change α)) :
    (∃ t es, changes.foldlM (change? S) (new S, []) = some (t, es) ∧ t.Represents S es ∧
      (∀ es', t.Represents S es' → es' = es) ∧ (es.map Prod.fst).Nodup ∧
      (∀ i a, (S.get? t.cells i).map Link.value = some a ↔ (i, a) ∈ es) ∧
      (∀ a, ∃ i u, t.push? S a = some (i, u) ∧ i ∉ es.map Prod.fst ∧
        u.Represents S (es ++ [(i, a)])) ∧
      (∀ front i a back, es = front ++ (i, a) :: back →
        ∃ u, t.detach? S i = some (a, u) ∧ u.Represents S (front ++ back)) ∧
      ∀ p, t.Finds S p ((es.find? fun e => p e.2).map Prod.fst)) ∧
    ∀ c : Chain α, c.strand.Represents (Cells.slab _) c.entries ∧
      (∀ a, c.strand.push? (Cells.slab _) a = some (c.cells.vacancy, (c.push a).strand)) ∧
      (∀ i a, c.get? i = some a →
        c.strand.detach? (Cells.slab _) i = some (a, (c.detach i).strand)) ∧
      ∀ p, c.strand.Finds (Cells.slab _) p (c.findOldest? p) := by
  refine ⟨?_, fun c => ⟨c.shows_strand.represents, c.push?_strand, fun i a => Chain.detach?_strand,
    c.finds_strand⟩⟩
  obtain ⟨t, c, hc, h⟩ := (shows_new hS).run hS changes
  have hr := h.represents
  refine ⟨t, c.entries, hc, hr, fun es' he => he.forward.unique hr.forward, c.nodup_entries,
    ?_, ?_, ?_, h.finds⟩
  · intro i a
    rw [h.get?_value, Chain.mem_entries_iff]
  · intro a
    obtain ⟨i, u, d, hu, hi, hshows, hd⟩ := h.push hS a
    exact ⟨i, u, hu, c.map_fst_entries ▸ hi, hd ▸ hshows.represents⟩
  · intro front i a back he
    have ha : c.get? i = some a := Chain.mem_entries_iff.mp (he ▸ by simp)
    obtain ⟨u, hu, hshows⟩ := h.detach hS ha
    exact ⟨u, hu, Chain.entries_detach he ▸ hshows.represents⟩

/-- Three values are pushed, the middle one is detached, and the next one gets its number. -/
theorem changes_represented_reused :
    let changes : List (Change String) :=
      [.push "a", .push "b", .push "a", .detach 1, .push "c"]
    (Cells.slab (Link String)).Lawful ∧
      ∃ t, changes.foldlM (change? (Cells.slab _)) (new (Cells.slab _), []) =
          some (t, [(0, "a"), (2, "a"), (1, "c")]) ∧
        t.Represents (Cells.slab _) [(0, "a"), (2, "a"), (1, "c")] := by
  intro changes
  have hlist : (changes.foldlM (change? (Cells.slab _)) (new (Cells.slab _), [])).map Prod.snd =
      some [(0, "a"), (2, "a"), (1, "c")] := by decide +kernel
  obtain ⟨⟨t, es, ht, hes, -⟩, -⟩ := changes_represented (Cells.lawful_slab (Link String)) changes
  rw [ht] at hlist
  obtain rfl := Option.some.inj hlist
  exact ⟨Cells.lawful_slab _, t, ht, hes⟩

end Strand

end FileDepot
