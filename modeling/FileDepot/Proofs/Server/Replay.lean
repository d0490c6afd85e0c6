import FileDepot.Proofs.Server.Holds

/-! # The journal accounts for the store

A store changes only by the requests applied and the releases, one at a time, as the journal has
them. Each response in it is the one that the store gave at that point. -/

namespace FileDepot

/-- What the events of a journal make of a store, in their order: a request is the one in its
message's payload, and the response the store's to it. -/
inductive Replays (store : Store) : List Event → Store → Prop where
  | nil : Replays store [] store
  | accepted {journal : List Event} {t : Store} (c : ClientId) (i : StreamId) :
      Replays store journal t → Replays store (journal ++ [.accepted c i]) t
  | posted {journal : List Event} {t : Store} (w : Nat) (m : Message) :
      Replays store journal t → Replays store (journal ++ [.posted w m]) t
  | reaped {journal : List Event} {t : Store} (c : ClientId) :
      Replays store journal t → Replays store (journal ++ [.reaped c]) t
  | applied {journal : List Event} {t : Store} {m : Message} {payload : Bytes} {request : Request} :
      m.work = .request payload → Request.decode payload = .ok request → Replays store journal t →
      Replays store (journal ++ [.applied m request (t.respond m.sender request).1.encode])
        (t.respond m.sender request).2
  | rejected {journal : List Event} {t : Store} {m : Message} {payload : Bytes}
      {why : RequestError} :
      m.work = .request payload → Request.decode payload = .error why → Replays store journal t →
      Replays store (journal ++ [.rejected m why]) t
  | released {journal : List Event} {t : Store} (c : ClientId) : Replays store journal t →
      Replays store (journal ++ [.released c]) (t.release c).2

namespace Server

/-- The journal of a server accounts for its store. -/
def AccountsFor (s : Server) (store : Store) : Prop :=
  Replays store s.journal s.store

variable {s t : Server} {store : Store}

theorem AccountsFor.of_eq (h : s.AccountsFor store) (hj : t.journal = s.journal)
    (hs : t.store = s.store) : t.AccountsFor store := by
  rw [AccountsFor, hj, hs]
  exact h

theorem AccountsFor.dispatch (h : s.AccountsFor store) (m : Message) :
    (s.dispatch m).AccountsFor store := by
  unfold Server.dispatch workerFor
  cases s.settings.selection with
  | sticky => exact .posted _ m h
  | random => exact .posted _ m h

theorem AccountsFor.reapAt (h : s.AccountsFor store) (k : Nat) :
    (s.reapAt k).AccountsFor store := by
  unfold Server.reapAt
  cases s.connections[k]? with
  | none => exact h
  | some c =>
      simp only
      split
      · have hr : ({ s with connections := s.connections.eraseIdx k }.note
            (.reaped c.id)).AccountsFor store := .reaped c.id h
        exact hr.dispatch _
      · exact h

theorem AccountsFor.readAt (h : s.AccountsFor store) (k : Nat) :
    (s.readAt k).AccountsFor store := by
  unfold Server.readAt
  cases s.connections[k]? with
  | none => exact h
  | some c =>
      simp only
      split
      · have hread : (s.read c).2.AccountsFor store := by
          obtain ⟨-, he | ⟨change, -, he | he | ⟨payload, he⟩⟩⟩ := read_cases s c
          · rw [he]
            exact h
          · rw [he]
            exact h
          · rw [he]
            exact h
          · rw [he]
            exact AccountsFor.dispatch (s := (s.onStream c.stream change).onStream c.stream
              Duplex.hold) h _
        exact hread.of_eq rfl rfl
      · exact h

theorem AccountsFor.acceptNext (h : s.AccountsFor store) : s.acceptNext.AccountsFor store := by
  unfold Server.acceptNext
  cases s.waiting with
  | nil => exact h
  | cons i waiting =>
      unfold Server.accept
      simp only
      split
      · exact h
      · exact .accepted _ i h

theorem AccountsFor.sever (h : s.AccountsFor store) : s.sever.AccountsFor store :=
  sever_ind (P := fun t => t.AccountsFor store) h (fun _ _ h => h) fun _ h => h

theorem AccountsFor.receiving (h : s.AccountsFor store) {act : Server → Server}
    (ha : (act s).AccountsFor store) : (s.receiving act).AccountsFor store :=
  receiving_ind (P := fun t => t.AccountsFor store) h fun _ => ha

theorem AccountsFor.forsakeNext (h : s.AccountsFor store) : s.forsakeNext.AccountsFor store := by
  rcases s.forsakeNext_cases with he | ⟨n, c, -, -, he⟩ <;> rw [he] <;> exact h

theorem AccountsFor.answer (h : s.AccountsFor store) {m : Message} {payload : Bytes}
    (hw : m.work = .request payload) : (s.answer m payload).AccountsFor store := by
  unfold Server.answer
  cases hd : Request.decode payload with
  | error why => exact .rejected hw hd h
  | ok request =>
      have ha := Replays.applied hw hd h
      simp only
      split
      · exact ha
      · exact ha

theorem AccountsFor.apply (h : s.AccountsFor store) (w : Nat) : (s.apply w).AccountsFor store := by
  unfold Server.apply
  split
  · rename_i queue m hm
    cases hw : m.work with
    | request payload => exact (h.answer hw).of_eq rfl rfl
    | hangUp => exact h
  · exact h

theorem AccountsFor.release (h : s.AccountsFor store) (c : ClientId) :
    (s.release c).AccountsFor store :=
  .released c h

end Server

namespace Scene

variable {r : Scene} {store : Store}

theorem accountsFor_step (h : r.server.AccountsFor store) (a : Action) :
    (r.step a).server.AccountsFor store := by
  cases a with
  | connect | halfClose | close | closeDoor | stopAll => exact h
  | send i bytes =>
      simp only [step]
      cases ht : r.server.clientSend i bytes with
      | none => exact h
      | some t =>
          obtain ⟨d, -, rfl⟩ := Option.map_eq_some_iff.mp ht
          exact h
  | receive i =>
      simp only [step, Server.clientReceive]
      split <;> exact h
  | reap k => exact h.receiving (h.reapAt k)
  | read k => exact h.receiving (h.readAt k)
  | accept => exact h.receiving h.acceptNext
  | sever => exact h.receiving h.sever
  | failRead => exact h.receiving h
  | forsake => exact h.forsakeNext
  | pull w =>
      simp only [step, Server.look, Server.pull?]
      split
      · exact h
      · split
        · rename_i hp
          split at hp
          · rw [← (Prod.mk.inj (Option.some.inj hp)).2]
            exact h
          · simp at hp
        · exact h
  | apply w => exact h.apply w
  | letGo w =>
      simp only [step, Server.letGo]
      split <;> exact h
  | release k =>
      simp only [step]
      split
      · exact h
      · exact h.release _
  | failSetup =>
      simp only [step, Server.turnAway]
      split <;> exact h
  | failWrite w =>
      simp only [step, Server.cutOff]
      split <;> exact h

theorem accountsFor_run (h : r.server.AccountsFor store) (actions : List Action) :
    (r.run actions).server.AccountsFor store := by
  induction actions generalizing r with
  | nil => exact h
  | cons a actions ih => exact ih (accountsFor_step h a)

end Scene

end FileDepot
