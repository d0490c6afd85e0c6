import FileDepot.Proofs.Buckets.Spread
import FileDepot.Store.Cursor

/-! # Walks

A walk yields the files of the bucket it is in and then those of the buckets ahead, as far as its
bound allows; a walk over a store yields the stored files. -/

namespace FileDepot

namespace Cursor

/-- A cursor whose next cells in its bucket are `back`. -/
structure At (c : Cursor) (back : List Nat) : Prop where
  passed : ∃ front, c.bucket.forward = front ++ back
  cell_eq : c.cell = back.head?

/-- The files that a walk without bound would still yield. -/
def pending (c : Cursor) (back : List Nat) : List File :=
  back.filterMap c.bucket.get? ++ c.ahead.flatMap Chain.toList

/-- The files that the bound lets through. -/
def within (c : Cursor) (fs : List File) : List File :=
  match c.remaining with
  | none => fs
  | some n => fs.take n

/-- Seeking finds the first file that is pending, in its bucket. -/
theorem seek_eq {bucket : Bucket} {front back : List Nat} (hb : bucket.forward = front ++ back)
    (ahead : List Bucket) :
    (seek bucket back.head? ahead = none ∧
      back.filterMap bucket.get? ++ ahead.flatMap Chain.toList = []) ∨
    ∃ bucket' front' cell back' ahead' f, seek bucket back.head? ahead = some (bucket', cell, ahead') ∧
      bucket'.forward = front' ++ cell :: back' ∧ bucket'.get? cell = some f ∧
      back.filterMap bucket.get? ++ ahead.flatMap Chain.toList =
        f :: (back'.filterMap bucket'.get? ++ ahead'.flatMap Chain.toList) := by
  induction ahead generalizing bucket front back with
  | nil =>
      cases back with
      | nil => exact .inl ⟨rfl, rfl⟩
      | cons cell back =>
          obtain ⟨f, hf⟩ := Chain.mem_forward_iff.mp (by simp [hb] : cell ∈ bucket.forward)
          exact .inr ⟨bucket, front, cell, back, [], f, rfl, hb, hf, by simp [hf]⟩
  | cons next ahead ih =>
      cases back with
      | nil =>
          have hn : next.forward = [] ++ next.forward := rfl
          simpa [seek, next.first_eq_head?_forward, Chain.toList] using ih hn
      | cons cell back =>
          obtain ⟨f, hf⟩ := Chain.mem_forward_iff.mp (by simp [hb] : cell ∈ bucket.forward)
          exact .inr ⟨bucket, front, cell, back, next :: ahead, f, rfl, hb, hf, by simp [hf]⟩

/-- The files that a walk will still yield are `fs`. -/
def Due (c : Cursor) (fs : List File) : Prop :=
  ∃ back, c.At back ∧ c.within (c.pending back) = fs

variable {c : Cursor} {fs : List File}

/-- A step yields the first file that is due and leaves the others due. When none is due, it yields
none and so will every later step. -/
theorem Due.next (h : c.Due fs) : c.next.1 = fs.head? ∧ c.next.2.Due fs.tail := by
  obtain ⟨back, hat, rfl⟩ := h
  obtain ⟨front, hb⟩ := hat.passed
  rw [Cursor.next]
  by_cases hz : c.remaining = some 0
  · have hnil : c.within (c.pending back) = [] := by simp [within, hz]
    rw [if_pos hz, hnil]
    exact ⟨rfl, back, hat, hnil⟩
  rw [if_neg hz, hat.cell_eq]
  rcases seek_eq hb c.ahead with ⟨hs, hp⟩ | ⟨bucket, front', cell, back', ahead, f, hs, hb', hg, hp⟩
  · rw [hs, pending, hp]
    have hnil : ∀ c : Cursor, c.within [] = [] := by
      intro c
      cases hr : c.remaining <;> simp [within, hr]
    rw [hnil]
    exact ⟨rfl, [], ⟨⟨c.bucket.forward, (List.append_nil _).symm⟩, rfl⟩, hnil _⟩
  · rw [hs]
    simp only [hg]
    let d : Cursor := ⟨bucket, bucket.next? cell, ahead, c.remaining.map (· - 1)⟩
    have hd : d.At back' :=
      ⟨⟨front' ++ [cell], by simpa using hb'⟩, Chain.next?_of_forward_eq hb'⟩
    have hw : c.within (c.pending back) = f :: d.within (d.pending back') := by
      have hdp : c.pending back = f :: d.pending back' := hp
      rw [hdp]
      cases hr : c.remaining with
      | none => simp [within, d, hr]
      | some n =>
          cases n with
          | zero => exact absurd hr hz
          | succ n => simp [within, d, hr]
    rw [hw]
    exact ⟨rfl, back', hd, rfl⟩

/-- The cursor after a number of steps. -/
def after (c : Cursor) : Nat → Cursor
  | 0 => c
  | k + 1 => c.next.2.after k

theorem Due.after (h : c.Due fs) (k : Nat) : (c.after k).Due (fs.drop k) := by
  induction k generalizing c fs with
  | zero => exact h
  | succ k ih =>
      rw [← List.drop_tail]
      exact ih h.next.2

/-- The steps yield what is due in turn, and none ever after. -/
theorem Due.next_after (h : c.Due fs) (k : Nat) : (c.after k).next.1 = fs[k]? :=
  (h.after k).next.1.trans List.head?_drop

/-- More steps than there are files due yield them all. -/
theorem Due.collect_fst (h : c.Due fs) {fuel : Nat} (hf : fs.length < fuel) :
    (collect fuel c).1 = fs := by
  induction fuel generalizing c fs with
  | zero => simp at hf
  | succ fuel ih =>
      obtain ⟨hy, hd⟩ := h.next
      rw [collect]
      generalize c.next = step at hy hd
      obtain ⟨yielded, d⟩ := step
      cases fs with
      | nil =>
          obtain rfl : yielded = none := hy
          rfl
      | cons f fs =>
          obtain rfl : yielded = some f := hy
          simp only [ih hd (Nat.lt_of_succ_lt_succ hf), List.tail_cons]

end Cursor

namespace Store

/-- A walk will yield the stored files, as many as it may. -/
theorem due_cursor (s : Store) (max : Nat) :
    (s.cursor max).Due (if max = 0 then s.files else s.files.take max) := by
  have ha : (s.cursor max).At [] := ⟨⟨[], rfl⟩, rfl⟩
  have hp : (s.cursor max).pending [] = s.files := rfl
  refine ⟨[], ha, ?_⟩
  rw [hp]
  by_cases hm : max = 0 <;> simp [Cursor.within, cursor, hm]

/-- A walk yields the stored files, as many as it may. -/
theorem list_eq (s : Store) (max : Nat) :
    s.list max = if max = 0 then s.files else s.files.take max := by
  apply (s.due_cursor max).collect_fst
  refine Nat.lt_succ_of_le ?_
  split
  · exact Nat.le_refl _
  · exact List.length_take_le' ..

end Store

end FileDepot
