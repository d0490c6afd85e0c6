import Mathlib.Data.List.Basic
import FileDepot.Server.Clients

/-! # Interleavings

A run of a server in its smallest actions, in any order: what clients do, what the receiver does
to one connection, what a worker does to one message, and what may go wrong. A poll, the receiver's
end and a worker's work are all sequences of these actions, and others may come in between. -/

namespace FileDepot

/-! ## Small actions of a server -/

namespace Server

/-- Reaps one connection, if it is dead. -/
def reapAt (s : Server) (k : Nat) : Server :=
  match s.connections[k]? with
  | none => s
  | some c =>
    if c.dead then
      ({ s with connections := s.connections.eraseIdx k }.note (.reaped c.id)).dispatch
        ⟨c.id, c.stream, .hangUp⟩
    else s

/-- Reads once from one connection, if it lives and is ready. -/
def readAt (s : Server) (k : Nat) : Server :=
  match s.connections[k]? with
  | none => s
  | some c =>
    if !c.dead && s.ready c then
      { (s.read c).2 with connections := s.connections.set k (s.read c).1 }
    else s

/-- Accepts the first waiting client. -/
def acceptNext (s : Server) : Server :=
  match s.waiting with
  | [] => s
  | i :: waiting => { s with waiting }.accept i

/-- Counts a connection as dead. -/
def killAt (s : Server) (k : Nat) : Server :=
  { s with connections := s.connections.modify k ({ · with dead := true }) }

/-- Hangs up on all clients when the receiver stops. -/
def sever (s : Server) : Server :=
  let s := s.connections.foldl (fun s c => s.onStream c.stream Duplex.hangUp) s
  { s with connections := s.connections.map ({ · with dead := true }) }

/-- Lets go of the stream of the message in a worker's hand, and gives the sender if that was the
last hold. -/
def letGo (s : Server) (w : Nat) : Option ClientId × Server :=
  match s.workers[w]? with
  | some ⟨queue, .served m⟩ =>
    (if s.lastHold m.stream then some m.sender else none,
      (s.onStream m.stream Duplex.drop).onWorker w fun _ => ⟨queue, .idle⟩)
  | _ => (none, s)

/-- Hangs up on the client whose response a worker fails to send. -/
def cutOff (s : Server) (w : Nat) : Server :=
  match s.workers[w]? with
  | some ⟨_, .served m⟩ => s.onStream m.stream Duplex.hangUp
  | _ => s

end Server

/-! ## Runs -/

/-- A server in the middle of a run, and the clients of whom the last hold has gone and the locks
are still to be released. -/
structure Scene where
  server : Server
  leaving : List ClientId := []

/-- What may happen next. Connections are named by their places among the receiver's, and clients
that leave by their places among those. -/
inductive Action where
  | connect
  | send (i : StreamId) (bytes : Bytes)
  | halfClose (i : StreamId)
  | close (i : StreamId)
  | receive (i : StreamId)
  | closeDoor
  | stopAll
  | reap (k : Nat)
  | read (k : Nat)
  | accept
  | sever
  | forsake
  | pull (w : Nat)
  | apply (w : Nat)
  | letGo (w : Nat)
  | release (k : Nat)
  | failSetup
  | failRead (k : Nat)
  | failWrite (w : Nat)

/-- Whether an action is one of the receiver's. -/
def Action.isReceiver : Action → Bool
  | .reap _ | .read _ | .accept | .sever | .forsake | .failSetup | .failRead _ => true
  | _ => false

/-- One bucket for all paths. -/
def Placement.single : Placement :=
  ⟨1, fun _ => 0⟩

namespace Scene

/-- A server before its first client. The dice pick the workers, where they are picked at random. -/
def start (settings : Settings) (store : Store) (workers : Nat) (dice : Dice) : Scene where
  server := { Server.start settings store workers with dice }

/-- What an action does. One that cannot happen does nothing. -/
def step (r : Scene) : Action → Scene
  | .connect => { r with server := r.server.connect.2 }
  | .send i bytes => { r with server := (r.server.clientSend i bytes).getD r.server }
  | .halfClose i => { r with server := r.server.halfClose i }
  | .close i => { r with server := r.server.clientClose i }
  | .receive i => { r with server := (r.server.clientReceive i).2.2 }
  | .closeDoor => { r with server := r.server.closeDoor }
  | .stopAll => { r with server := r.server.stopAll }
  | .reap k => { r with server := r.server.receiving (·.reapAt k) }
  | .read k => { r with server := r.server.receiving (·.readAt k) }
  | .accept => { r with server := r.server.receiving Server.acceptNext }
  | .sever => { r with server := r.server.receiving Server.sever }
  | .forsake => { r with server := r.server.forsakeNext }
  | .pull w => { r with server := (r.server.look w).2 }
  | .apply w => { r with server := r.server.apply w }
  | .letGo w =>
    { server := (r.server.letGo w).2, leaving := r.leaving ++ (r.server.letGo w).1.toList }
  | .release k =>
    match r.leaving[k]? with
    | none => r
    | some c => { server := r.server.release c, leaving := r.leaving.eraseIdx k }
  | .failSetup => { r with server := r.server.turnAway }
  | .failRead k => { r with server := r.server.receiving (·.killAt k) }
  | .failWrite w => { r with server := r.server.cutOff w }

/-- What some actions do, one after the other. -/
def run (r : Scene) (actions : List Action) : Scene :=
  actions.foldl step r

theorem run_append (r : Scene) (actions later : List Action) :
    r.run (actions ++ later) = (r.run actions).run later :=
  List.foldl_append ..

/-- Some actions lead from one scene to another. -/
def Leads (r t : Scene) : Prop :=
  ∃ actions, r.run actions = t

namespace Leads

variable {r t u : Scene}

theorem refl (r : Scene) : r.Leads r :=
  ⟨[], rfl⟩

theorem step (r : Scene) (a : Action) : r.Leads (r.step a) :=
  ⟨[a], rfl⟩

theorem trans (h : r.Leads t) (h' : t.Leads u) : r.Leads u := by
  obtain ⟨first, rfl⟩ := h
  obtain ⟨second, rfl⟩ := h'
  exact ⟨first ++ second, run_append ..⟩

end Leads

end Scene

namespace Server

variable {s : Server} {act : Server → Server}

/-! ## A receiver that stands, and one that has fallen -/

theorem receiving_of_standing (h : s.fallen = none) : s.receiving act = act s := by
  simp [receiving, h]

theorem receiving_of_fallen (h : s.fallen.isSome = true) : s.receiving act = s := by
  simp [receiving, h]

/-- What holds of a server also holds after what its receiver does, if that keeps it while the
receiver stands. -/
theorem receiving_ind {P : Server → Prop} (h : P s) (ha : s.fallen = none → P (act s)) :
    P (s.receiving act) := by
  by_cases hf : s.fallen = none
  · rw [receiving_of_standing hf]
    exact ha hf
  · rw [receiving_of_fallen (Option.isSome_iff_ne_none.mpr hf)]
    exact h

/-- A receiver that should stop has not fallen. -/
theorem fallen_of_isDone (h : s.isDone = true) : s.fallen = none :=
  Option.isNone_iff_eq_none.mp (Bool.and_eq_true_iff.mp h).1

/-- A receiver that has fallen lets go of one connection at a time, in their order. -/
theorem forsakeNext_cases (s : Server) : s.forsakeNext = s ∨
    ∃ n c, s.fallen = some n ∧ s.connections[n]? = some c ∧
      s.forsakeNext = { s with fallen := some (n + 1) }.onStream c.stream Duplex.drop := by
  unfold forsakeNext
  split
  · exact .inl rfl
  · rename_i n hf
    split
    · exact .inl rfl
    · rename_i c hc
      exact .inr ⟨n, c, hf, hc, rfl⟩

theorem fallen_dispatch (s : Server) (m : Message) : (s.dispatch m).fallen = s.fallen := by
  unfold dispatch workerFor
  cases s.settings.selection <;> rfl

/-- What hanging up on a stream keeps and killing all connections keeps, severing keeps. -/
theorem sever_ind {P : Server → Prop} (h : P s)
    (hangUp : ∀ s i, P s → P (s.onStream i Duplex.hangUp))
    (kill : ∀ s, P s → P { s with connections := s.connections.map ({ · with dead := true }) }) :
    P s.sever :=
  kill _ (List.foldlRecOn s.connections _ h fun s hs c _ => hangUp s c.stream hs)

theorem fallen_sever (s : Server) : s.sever.fallen = s.fallen :=
  sever_ind (P := fun t => t.fallen = s.fallen) rfl (fun _ _ h => h) fun _ h => h

theorem fallen_accept (s : Server) (i : StreamId) : (s.accept i).fallen = s.fallen := by
  unfold accept
  cases s.soft <;> rfl

/-! ## The receiver's lists stand by themselves -/

/-- The server with another list of connections. -/
def withConnections (s : Server) (cs : List Connection) : Server :=
  { s with connections := cs }

@[simp] theorem connections_withConnections (s : Server) (cs : List Connection) :
    (s.withConnections cs).connections = cs := rfl

@[simp] theorem withConnections_withConnections (s : Server) (cs cs' : List Connection) :
    (s.withConnections cs).withConnections cs' = s.withConnections cs' := rfl

theorem withConnections_self {s : Server} {cs : List Connection} (h : s.connections = cs) :
    s.withConnections cs = s := by
  subst h
  rfl

/-- The server with another list of waiting clients. -/
def withWaiting (s : Server) (waiting : List StreamId) : Server :=
  { s with waiting }

theorem accept_withWaiting (s : Server) (waiting : List StreamId) (i : StreamId) :
    (s.withWaiting waiting).accept i = (s.accept i).withWaiting waiting := by
  have hs : (s.withWaiting waiting).soft = s.soft := rfl
  unfold accept
  rw [hs]
  cases s.soft <;> rfl

theorem waiting_accept (s : Server) (i : StreamId) : (s.accept i).waiting = s.waiting := by
  unfold accept
  cases s.soft <;> rfl

theorem dispatch_withConnections (s : Server) (cs : List Connection) (m : Message) :
    (s.withConnections cs).dispatch m = (s.dispatch m).withConnections cs := by
  have hs : (s.withConnections cs).settings = s.settings := rfl
  unfold dispatch workerFor
  rw [hs]
  cases s.settings.selection <;> rfl

theorem connections_dispatch (s : Server) (m : Message) :
    (s.dispatch m).connections = s.connections := by
  unfold dispatch workerFor
  cases s.settings.selection <;> rfl

theorem offer_withConnections (s : Server) (cs : List Connection) (c : Connection) (bytes : Bytes) :
    (s.withConnections cs).offer c bytes =
      ((s.offer c bytes).1, (s.offer c bytes).2.withConnections cs) := by
  unfold offer
  rcases c.reader.offer bytes with ⟨fault | ⟨consumed, missing | payload⟩, reader⟩
  · cases fault <;> rfl
  · rfl
  · exact Prod.ext rfl (dispatch_withConnections (s.onStream c.stream Duplex.hold) cs _)

theorem read_withConnections (s : Server) (cs : List Connection) (c : Connection) :
    (s.withConnections cs).read c = ((s.read c).1, (s.read c).2.withConnections cs) := by
  have hs : (s.withConnections cs).stream? c.stream = s.stream? c.stream := rfl
  unfold read
  rw [hs]
  cases s.stream? c.stream with
  | none => rfl
  | some d =>
      simp only
      cases (d.up.take c.reader.wanted).1.isEmpty with
      | true => rfl
      | false => exact offer_withConnections (s.onStream c.stream
          ({ · with up := (d.up.take c.reader.wanted).2 })) cs c _

theorem readAll_withConnections (s : Server) (cs todo : List Connection) :
    (s.withConnections cs).readAll todo =
      ((s.readAll todo).1, (s.readAll todo).2.withConnections cs) := by
  induction todo generalizing s with
  | nil => rfl
  | cons c todo ih =>
      have hr : ((s.withConnections cs).fallen.isNone && (s.withConnections cs).ready c) =
          (s.fallen.isNone && s.ready c) := rfl
      unfold readAll
      rw [hr]
      cases s.fallen.isNone && s.ready c with
      | false => simp only [Bool.false_eq_true, if_false, ih]
      | true => simp only [if_true, read_withConnections, ih]

/-! ## Polls and work are runs -/

/-- Reaps one dead connection that has left the list already. -/
def reap (s : Server) (c : Connection) : Server :=
  (s.note (.reaped c.id)).dispatch ⟨c.id, c.stream, .hangUp⟩

theorem reap_withConnections (s : Server) (cs : List Connection) (c : Connection) :
    (s.withConnections cs).reap c = (s.reap c).withConnections cs :=
  dispatch_withConnections (s.note (.reaped c.id)) cs _

theorem connections_reap (s : Server) (c : Connection) : (s.reap c).connections = s.connections :=
  connections_dispatch ..

theorem fallen_reap (s : Server) (c : Connection) : (s.reap c).fallen = s.fallen :=
  fallen_dispatch ..

theorem reapDead_eq (s : Server) : s.reapDead =
    (s.connections.filter (·.dead)).foldl reap (s.withConnections (s.connections.filter (!·.dead))) :=
  rfl

theorem reapAt_length {s : Server} {kept rest : List Connection} {c : Connection}
    (h : s.connections = kept ++ c :: rest) (hd : c.dead = true) :
    s.reapAt kept.length = (s.withConnections (kept ++ rest)).reap c := by
  have hk : s.connections[kept.length]? = some c := by simp [h]
  have he : s.connections.eraseIdx kept.length = kept ++ rest := by
    rw [h, List.eraseIdx_append_of_length_le (Nat.le_refl _), Nat.sub_self]
    rfl
  rw [reapAt, hk]
  simp only [hd, if_true, he]
  rfl

theorem readAt_length {s : Server} {done rest : List Connection} {c : Connection}
    (h : s.connections = done ++ c :: rest) (hd : c.dead = false) (hr : s.ready c = true) :
    s.readAt done.length = (s.read c).2.withConnections (done ++ (s.read c).1 :: rest) := by
  have hk : s.connections[done.length]? = some c := by simp [h]
  have he : s.connections.set done.length (s.read c).1 = done ++ (s.read c).1 :: rest := by
    rw [h, List.set_append_right _ _ (Nat.le_refl _), Nat.sub_self]
    rfl
  rw [readAt, hk]
  simp only [hd, hr, he]
  rfl

/-- Reaping all dead connections is to reap one after the other. -/
theorem exists_reaps {kept todo : List Connection} (hs : s.fallen = none)
    (h : s.connections = kept ++ todo) (leaving : List ClientId) :
    ∃ ks : List Nat, Scene.run ⟨s, leaving⟩ (ks.map .reap) = ⟨(todo.filter (·.dead)).foldl reap
      (s.withConnections (kept ++ todo.filter (!·.dead))), leaving⟩ := by
  -- The induction is on the connections still to be looked at; those before them are kept.
  induction todo generalizing s kept with
  | nil =>
      have hn : s.withConnections (kept ++ []) = s := withConnections_self h
      exact ⟨[], congrArg (Scene.mk · leaving) hn.symm⟩
  | cons c todo ih =>
      cases hd : c.dead with
      | false =>
          have hc : s.connections = (kept ++ [c]) ++ todo := by simp [h]
          simpa [List.filter_cons, hd] using ih hs hc
      | true =>
          have hn : Scene.step ⟨s, leaving⟩ (.reap kept.length) =
              ⟨(s.withConnections (kept ++ todo)).reap c, leaving⟩ :=
            congrArg (Scene.mk · leaving) ((receiving_of_standing hs).trans (reapAt_length h hd))
          have hc : ((s.withConnections (kept ++ todo)).reap c).connections = kept ++ todo :=
            connections_reap ..
          have hf : ((s.withConnections (kept ++ todo)).reap c).fallen = none :=
            (fallen_reap ..).trans hs
          obtain ⟨ks, hk⟩ := ih hf hc
          refine ⟨kept.length :: ks, (congrArg (Scene.run · (ks.map .reap)) hn).trans ?_⟩
          simpa [List.filter_cons, hd, reap_withConnections] using hk

theorem exists_reapDead (hs : s.fallen = none) (leaving : List ClientId) :
    ∃ ks : List Nat, Scene.run ⟨s, leaving⟩ (ks.map .reap) = ⟨s.reapDead, leaving⟩ := by
  have hc : s.connections = [] ++ s.connections := rfl
  exact exists_reaps hs hc leaving

theorem leads_reapDead (hs : s.fallen = none) (leaving : List ClientId) :
    Scene.Leads ⟨s, leaving⟩ ⟨s.reapDead, leaving⟩ := by
  obtain ⟨ks, hk⟩ := exists_reapDead hs leaving
  exact ⟨_, hk⟩

/-- Reading from all connections that are ready is to read from one after the other, each of them
once, as long as the receiver stands. -/
theorem exists_reads {done todo : List Connection} (h : s.connections = done ++ todo)
    (hd : ∀ c ∈ todo, c.dead = false) (leaving : List ClientId) :
    ∃ ks : List Nat, ks.Pairwise (· < ·) ∧ (∀ k ∈ ks, done.length ≤ k) ∧
      Scene.run ⟨s, leaving⟩ (ks.map .read) =
        ⟨(s.readAll todo).2.withConnections (done ++ (s.readAll todo).1), leaving⟩ := by
  -- The induction is on the connections still to be read, all of them alive.
  induction todo generalizing s done with
  | nil =>
      have hs : s.withConnections (done ++ []) = s := withConnections_self h
      exact ⟨[], .nil, by simp, congrArg (Scene.mk · leaving) hs.symm⟩
  | cons c todo ih =>
      obtain ⟨hc, hd⟩ := List.forall_mem_cons.mp hd
      cases hr : s.fallen.isNone && s.ready c with
      | false =>
          have hn : s.connections = (done ++ [c]) ++ todo := by simp [h]
          obtain ⟨ks, hsorted, hle, hk⟩ := ih hn hd
          refine ⟨ks, hsorted, fun k hmem => ?_, by simpa [readAll, hr] using hk⟩
          have hlt := hle k hmem
          simp only [List.length_append, List.length_singleton] at hlt
          omega
      | true =>
          obtain ⟨hstands, hready⟩ := Bool.and_eq_true_iff.mp hr
          have hs : Scene.step ⟨s, leaving⟩ (.read done.length) =
              ⟨(s.read c).2.withConnections (done ++ (s.read c).1 :: todo), leaving⟩ :=
            congrArg (Scene.mk · leaving) ((receiving_of_standing (by simpa using hstands)).trans
              (readAt_length h hc hready))
          have hn : ((s.read c).2.withConnections (done ++ (s.read c).1 :: todo)).connections =
              (done ++ [(s.read c).1]) ++ todo := by simp
          obtain ⟨ks, hsorted, hle, hk⟩ := ih hn hd
          simp only [List.length_append, List.length_singleton] at hle
          refine ⟨done.length :: ks, hsorted.cons fun k hmem => hle k hmem, ?_,
            (congrArg (Scene.run · (ks.map .read)) hs).trans ?_⟩
          · simp only [List.mem_cons, forall_eq_or_imp]
            exact ⟨Nat.le_refl _, fun k hmem => Nat.le_of_succ_le (hle k hmem)⟩
          · simpa [readAll, hr, readAll_withConnections] using hk

theorem exists_readReady (hd : ∀ c ∈ s.connections, c.dead = false) (leaving : List ClientId) :
    ∃ ks : List Nat, ks.Pairwise (· < ·) ∧
      Scene.run ⟨s, leaving⟩ (ks.map .read) = ⟨s.readReady, leaving⟩ := by
  have hc : s.connections = [] ++ s.connections := rfl
  obtain ⟨ks, hsorted, -, hk⟩ := exists_reads hc hd leaving
  exact ⟨ks, hsorted, hk⟩

/-- Accepting all waiting clients is to accept one after the other. -/
theorem run_accepts {waiting : List StreamId} (hs : s.fallen = none) (h : s.waiting = waiting)
    (leaving : List ClientId) : Scene.run ⟨s, leaving⟩ (waiting.map fun _ => .accept) =
      ⟨waiting.foldl accept (s.withWaiting []), leaving⟩ := by
  induction waiting generalizing s with
  | nil =>
      have hn : s.withWaiting [] = s := h ▸ rfl
      exact congrArg (Scene.mk · leaving) hn.symm
  | cons i waiting ih =>
      have hn : s.acceptNext = (s.withWaiting waiting).accept i := by
        rw [acceptNext, h]
        rfl
      have ha : Scene.step ⟨s, leaving⟩ .accept = ⟨(s.withWaiting waiting).accept i, leaving⟩ :=
        congrArg (Scene.mk · leaving) ((receiving_of_standing hs).trans hn)
      have hf : ((s.withWaiting waiting).accept i).fallen = none := (fallen_accept ..).trans hs
      have hk := ih hf (waiting_accept (s.withWaiting waiting) i)
      rw [← accept_withWaiting] at hk
      exact (congrArg (Scene.run · (waiting.map fun _ => .accept)) ha).trans hk

theorem run_acceptAll (hs : s.fallen = none) (leaving : List ClientId) :
    Scene.run ⟨s, leaving⟩ (s.waiting.map fun _ => .accept) = ⟨s.acceptAll, leaving⟩ :=
  run_accepts hs rfl leaving

/-- Doing the same for each element of a list is to repeat one action. -/
theorem run_repeated {α : Type} {a : Action} {leaving : List ClientId}
    (ha : ∀ s, Scene.step ⟨s, leaving⟩ a = ⟨act s, leaving⟩) (xs : List α) (s : Server) :
    Scene.run ⟨s, leaving⟩ (xs.map fun _ => a) = ⟨xs.foldl (fun s _ => act s) s, leaving⟩ := by
  induction xs generalizing s with
  | nil => rfl
  | cons x xs ih => exact (congrArg (Scene.run · (xs.map fun _ => a)) (ha s)).trans (ih (act s))

/-- What the receiver does when it has fallen. -/
def forsaking (s : Server) : List Action :=
  (s.waiting.map fun _ => .failSetup) ++ s.connections.map fun _ => .forsake

theorem run_forsaking (s : Server) (leaving : List ClientId) :
    Scene.run ⟨s, leaving⟩ s.forsaking = ⟨s.forsakeAll, leaving⟩ := by
  rw [forsaking, Scene.run_append, run_repeated fun _ => rfl, run_repeated fun _ => rfl, forsakeAll]

theorem connections_reapDead (s : Server) :
    s.reapDead.connections = s.connections.filter (!·.dead) := by
  rw [reapDead_eq]
  apply List.foldlRecOn (motive := fun t : Server => t.connections = s.connections.filter (!·.dead))
  · rfl
  · exact fun t ht c _ => (connections_reap t c).trans ht

/-- After a reaping all connections are alive. -/
theorem dead_of_reapDead (s : Server) : ∀ c ∈ s.reapDead.connections, c.dead = false := by
  intro c hc
  rw [connections_reapDead] at hc
  simpa using (List.mem_filter.mp hc).2

/-- A poll is a run of the receiver's actions: others may come in between. -/
theorem leads_poll (s : Server) (leaving : List ClientId) :
    Scene.Leads ⟨s, leaving⟩ ⟨s.poll, leaving⟩ := by
  refine receiving_ind (P := fun t => Scene.Leads ⟨s, leaving⟩ ⟨t, leaving⟩) (.refl _) fun hs => ?_
  have hr := leads_reapDead hs leaving
  cases hh : s.reapDead.hard with
  | true =>
      simp only [hh, if_true]
      exact hr
  | false =>
      obtain ⟨ks, -, hread⟩ := exists_readReady s.dead_of_reapDead leaving
      simp only [hh, Bool.false_eq_true, if_false]
      refine (hr.trans ⟨_, hread⟩).trans ?_
      split
      · exact ⟨_, run_forsaking ..⟩
      · rename_i hf
        exact ⟨_, run_acceptAll (Option.not_isSome_iff_eq_none.mp hf) leaving⟩

theorem leads_windUp (s : Server) (leaving : List ClientId) :
    Scene.Leads ⟨s, leaving⟩ ⟨s.windUp, leaving⟩ := by
  refine receiving_ind (P := fun t => Scene.Leads ⟨s, leaving⟩ ⟨t, leaving⟩) (.refl _) fun hs => ?_
  have hsever := Scene.Leads.step ⟨s, leaving⟩ .sever
  simp only [Scene.step, receiving_of_standing hs] at hsever
  exact hsever.trans (leads_reapDead ((fallen_sever s).trans hs) leaving)

theorem finish_eq (s : Server) (w : Nat) :
    s.finish w = ((s.letGo w).1.elim (s.letGo w).2 (s.letGo w).2.release) := by
  rcases hw : s.workers[w]? with _ | ⟨queue, _ | m | m⟩
  · simp only [finish, letGo, hw, Option.elim_none]
  · simp only [finish, letGo, hw, Option.elim_none]
  · simp only [finish, letGo, hw, Option.elim_none]
  · simp only [finish, letGo, hw]
    cases s.lastHold m.stream <;> rfl

/-- Finishing a message is letting go of its stream and then releasing, in one go. -/
theorem leads_finish (s : Server) (w : Nat) (leaving : List ClientId) :
    Scene.Leads ⟨s, leaving⟩ ⟨s.finish w, leaving⟩ := by
  have hs := Scene.Leads.step ⟨s, leaving⟩ (.letGo w)
  rw [finish_eq]
  simp only [Scene.step] at hs
  cases hl : (s.letGo w).1 with
  | none => simpa [hl] using hs
  | some c =>
      have hk := Scene.Leads.step ⟨(s.letGo w).2, leaving ++ [c]⟩ (.release leaving.length)
      have he : (leaving ++ [c]).eraseIdx leaving.length = leaving := by
        rw [List.eraseIdx_append_of_length_le (Nat.le_refl _), Nat.sub_self]
        simp
      simp only [Scene.step, List.getElem?_concat_length, he] at hk
      simp only [hl, Option.toList_some] at hs
      exact hs.trans hk

/-- A worker's work on one message is a run of its actions. -/
theorem leads_work (s : Server) (w : Nat) (leaving : List ClientId) :
    Scene.Leads ⟨s, leaving⟩ ⟨(s.work w).2, leaving⟩ := by
  have hs := Scene.Leads.step ⟨s, leaving⟩ (.pull w)
  unfold work
  simp only [Scene.step] at hs
  split
  · rename_i m t hl
    rw [hl] at hs
    exact (hs.trans (.step ⟨t, leaving⟩ (.apply w))).trans (leads_finish (t.apply w) w leaving)
  · rename_i idle t hl heq
    rw [heq] at hs
    exact hs

/-- So is the work of some workers, one after the other, and of all of them in turns. -/
theorem leads_works (ws : List Nat) (s : Server) (leaving : List ClientId) :
    Scene.Leads ⟨s, leaving⟩ ⟨ws.foldl (fun s w => (s.work w).2) s, leaving⟩ := by
  induction ws generalizing s with
  | nil => exact .refl _
  | cons w ws ih => exact (leads_work s w leaving).trans (ih _)

theorem leads_workAll (fuel : Nat) (s : Server) (leaving : List ClientId) :
    Scene.Leads ⟨s, leaving⟩ ⟨workAll fuel s, leaving⟩ := by
  induction fuel generalizing s with
  | zero => exact .refl _
  | succ fuel ih =>
      unfold workAll
      split
      · exact .refl _
      · exact (leads_works _ s leaving).trans (ih _)

theorem leads_settleUpTo (fuel : Nat) (s : Server) (leaving : List ClientId) :
    Scene.Leads ⟨s, leaving⟩ ⟨settleUpTo fuel s, leaving⟩ := by
  induction fuel generalizing s with
  | zero => exact .refl _
  | succ fuel ih =>
      unfold settleUpTo
      split
      · exact .refl _
      · exact ((leads_poll s leaving).trans (leads_workAll _ s.poll leaving)).trans (ih _)

/-- All that a server does when it is left to itself is one of its runs: the receiver and the
workers take turns until nothing is left to do. -/
theorem leads_settle (s : Server) (leaving : List ClientId) :
    Scene.Leads ⟨s, leaving⟩ ⟨s.settle, leaving⟩ :=
  leads_settleUpTo _ s leaving

end Server

end FileDepot
