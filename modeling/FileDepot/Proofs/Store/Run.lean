import FileDepot.Proofs.Store.Effect

/-! # Runs

A run goes through a list of stores, and each of its operations is performed on one of them. All
of them track a list of files if the first one does. -/

namespace FileDepot

namespace Store

/-- The stores that a run goes through, from the first to the last. -/
def states (s : Store) : List Operation → List Store
  | [] => [s]
  | op :: ops => s :: (s.perform op).2.states ops

/-- The operations of a run, each with the store that it is performed on. -/
def steps (s : Store) : List Operation → List (Store × Operation)
  | [] => []
  | op :: ops => (s, op) :: (s.perform op).2.steps ops

/-- The files that a run hands over, in the order of their eviction. -/
def evictedBy (s : Store) (ops : List Operation) : List File :=
  (s.run ops).1.flatMap Answer.victims

theorem evictedBy_cons (s : Store) (op : Operation) (ops : List Operation) :
    s.evictedBy (op :: ops) = (s.perform op).1.victims ++ (s.perform op).2.evictedBy ops :=
  List.flatMap_cons

theorem mem_states_self (s : Store) (ops : List Operation) : s ∈ s.states ops := by
  cases ops <;> simp [states]

variable {s : Store} {fs : List File}

theorem Tracks.run (h : s.Tracks fs) (ops : List Operation) : ∃ gs, (s.run ops).2.Tracks gs := by
  induction ops generalizing s fs with
  | nil => exact ⟨fs, h⟩
  | cons op ops ih =>
      obtain ⟨peak, gs, hp⟩ := h.perform op
      exact ih hp.tracks

/-- A run keeps the budgets, the placement and the policy. -/
theorem Tracks.sameSettings_run (h : s.Tracks fs) (ops : List Operation) :
    s.SameSettings (s.run ops).2 := by
  induction ops generalizing s fs with
  | nil => exact .refl s
  | cons op ops ih =>
      obtain ⟨peak, gs, hp⟩ := h.perform op
      exact hp.sameSettings.trans (ih hp.tracks)

theorem Tracks.of_mem_steps (h : s.Tracks fs) {ops : List Operation} {u : Store} {op : Operation}
    (hu : (u, op) ∈ s.steps ops) : op ∈ ops ∧ ∃ us, u.Tracks us := by
  induction ops generalizing s fs with
  | nil => simp [steps] at hu
  | cons o ops ih =>
      rcases List.mem_cons.mp hu with he | hu
      · obtain ⟨rfl, rfl⟩ := Prod.mk.inj he
        exact ⟨List.mem_cons_self, fs, h⟩
      · obtain ⟨peak, gs, hp⟩ := h.perform o
        exact (ih hp.tracks hu).imp_left (List.mem_cons_of_mem _)

end Store

end FileDepot
