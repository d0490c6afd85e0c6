import FileDepot.Proofs.Frame.Sink
import FileDepot.Proofs.Server.Reception
import FileDepot.Proofs.Server.Stopping

/-! # The rounds of a receiver

A receiver reaps what has died, then reads at most once from each connection, in their order, and
then accepts clients; clients and workers act at any time. A read is not guarded by the connection's
being alive. It need not be: a connection that dies in a round is behind the place to be read next,
and is reaped before the next round reads. So what is read is always a connection whose reader wants
something, and reading nothing means that the stream has ended. A reader that panics is not read
again either: the receiver has fallen, and reads nothing any more. -/

namespace FileDepot

/-- Where something can be read, taking no byte though some are wanted means that the stream has
ended. -/
theorem Duplex.ended_of_take_eq_nil {d : Duplex} {n : Nat} (hn : 0 < n)
    (hr : d.readable = true) (h : (d.up.take n).1 = []) :
    d.up.unread = [] ∧ (d.upEnded = true ∨ d.hungUp = true) := by
  have hnil : d.up.unread = [] := by
    have ht : d.up.unread.take n = [] := h
    rcases List.take_eq_nil_iff.mp ht with hz | hu
    · omega
    · exact hu
  refine ⟨hnil, ?_⟩
  simpa [Duplex.readable, hnil] using hr

/-! ## What does not touch the receiver's list -/

namespace Server

/-- Reads once from one connection that is ready, dead or not. -/
def readOnce (s : Server) (k : Nat) : Server :=
  match s.connections[k]? with
  | none => s
  | some c =>
    if s.ready c then
      { (s.read c).2 with connections := s.connections.set k (s.read c).1 }
    else s

variable {s : Server} {k : Nat}

theorem readOnce_eq_readAt (h : ∀ c, s.connections[k]? = some c → c.dead = false) :
    s.readOnce k = s.readAt k := by
  unfold readOnce readAt
  cases hk : s.connections[k]? with
  | none => rfl
  | some c => simp [h c hk]

theorem receiving_readOnce_eq (h : ∀ c, s.connections[k]? = some c → c.dead = false) :
    s.receiving (·.readOnce k) = s.receiving (·.readAt k) := by
  simp only [receiving, readOnce_eq_readAt h]

theorem getElem?_connections_readAt {i : Nat} (h : k ≠ i) :
    (s.readAt k).connections[i]? = s.connections[i]? := by
  unfold readAt
  cases hk : s.connections[k]? with
  | none => rfl
  | some c =>
      simp only
      split
      · exact List.getElem?_set_ne h
      · rfl

theorem getElem?_connections_killAt {i : Nat} (h : k ≠ i) :
    (s.killAt k).connections[i]? = s.connections[i]? :=
  List.getElem?_modify_ne _ s.connections h

theorem connections_answer (s : Server) (m : Message) (payload : Bytes) :
    (s.answer m payload).connections = s.connections := by
  unfold answer
  cases Request.decode payload with
  | error why => rfl
  | ok request =>
      simp only
      split <;> rfl

theorem connections_apply (s : Server) (w : Nat) : (s.apply w).connections = s.connections := by
  unfold apply
  split
  · rename_i queue m hw
    cases m.work with
    | request payload => exact s.connections_answer m payload
    | hangUp => rfl
  · rfl

theorem connections_look (s : Server) (w : Nat) : (s.look w).2.connections = s.connections := by
  unfold look pull?
  rcases s.workers[w]? with _ | ⟨_ | ⟨m, queue⟩, _ | _ | _⟩ <;> simp only <;> split <;> rfl

theorem connections_letGo (s : Server) (w : Nat) : (s.letGo w).2.connections = s.connections := by
  unfold letGo
  split <;> rfl

theorem connections_turnAway (s : Server) : s.turnAway.connections = s.connections := by
  unfold turnAway
  split <;> rfl

theorem connections_clientReceive (s : Server) (i : StreamId) :
    (s.clientReceive i).2.2.connections = s.connections := by
  unfold clientReceive
  split <;> rfl

theorem connections_clientSend (s : Server) (i : StreamId) (bytes : Bytes) :
    ((s.clientSend i bytes).getD s).connections = s.connections := by
  unfold clientSend
  cases (s.stream? i).bind (·.clientSend bytes) <;> rfl

theorem connections_forsakeNext (s : Server) : s.forsakeNext.connections = s.connections := by
  rcases s.forsakeNext_cases with he | ⟨n, c, -, -, he⟩ <;> rw [he]
  rfl

theorem connections_cutOff (s : Server) (w : Nat) : (s.cutOff w).connections = s.connections := by
  unfold cutOff
  split <;> rfl

/-- Whom the receiver accepts is alive and comes last. -/
theorem connections_acceptNext (s : Server) : s.acceptNext.connections = s.connections ∨
    ∃ c : Connection, c.dead = false ∧ s.acceptNext.connections = s.connections ++ [c] := by
  unfold acceptNext accept
  split
  · exact .inl rfl
  · simp only
    split
    · exact .inl rfl
    · exact .inr ⟨_, rfl, rfl⟩

end Server

namespace Scene

theorem getElem?_connections_read (r : Scene) {k i : Nat} (h : k ≠ i) :
    (r.step (.read k)).server.connections[i]? = r.server.connections[i]? :=
  Server.receiving_ind (P := fun t => t.connections[i]? = r.server.connections[i]?) rfl
    fun _ => Server.getElem?_connections_readAt h

theorem getElem?_connections_failRead (r : Scene) {k i : Nat} (h : k ≠ i) :
    (r.step (.failRead k)).server.connections[i]? = r.server.connections[i]? :=
  Server.receiving_ind (P := fun t => t.connections[i]? = r.server.connections[i]?) rfl
    fun _ => Server.getElem?_connections_killAt h

theorem connections_accept (r : Scene) :
    (r.step .accept).server.connections = r.server.connections ∨ ∃ c : Connection,
      c.dead = false ∧ (r.step .accept).server.connections = r.server.connections ++ [c] :=
  Server.receiving_ind (P := fun t => t.connections = r.server.connections ∨
    ∃ c : Connection, c.dead = false ∧ t.connections = r.server.connections ++ [c]) (.inl rfl)
    fun _ => r.server.connections_acceptNext

/-- Only the receiver touches its connections, and it does not when it lets go of them. -/
theorem connections_step {r : Scene} {a : Action} (h : a.isReceiver = false ∨ a = .forsake) :
    (r.step a).server.connections = r.server.connections := by
  cases a with
  | reap | read | accept | sever | failSetup | failRead => simp [Action.isReceiver] at h
  | forsake => exact r.server.connections_forsakeNext
  | connect | halfClose | close | closeDoor | stopAll => rfl
  | send i bytes => exact r.server.connections_clientSend i bytes
  | receive i => exact r.server.connections_clientReceive i
  | pull w => exact r.server.connections_look w
  | apply w => exact r.server.connections_apply w
  | letGo w => exact r.server.connections_letGo w
  | release k =>
      simp only [step]
      split <;> rfl
  | failWrite w => exact r.server.connections_cutOff w

end Scene

/-! ## Rounds -/

/-- Where a receiver is: between two rounds of reading, or in one. -/
inductive Phase where
  /-- It reaps what has died. -/
  | reaping
  /-- It reads, and has not come to the connection at this place. -/
  | reading (next : Nat)

/-- Whether an action may happen, reads apart: the receiver reaps or stops between rounds, and in a
round it accepts. When it has fallen it may let go of connections at any time. -/
def Phase.allows : Phase → Action → Bool
  | .reaping, .reap _ | .reaping, .sever => true
  | .reading _, .accept | .reading _, .failSetup => true
  | _, .forsake => true
  | _, a => !a.isReceiver

theorem Phase.allows_reading {next : Nat} {a : Action}
    (h : (Phase.reading next).allows a = true) :
    a = .accept ∨ a = .failSetup ∨ a.isReceiver = false ∨ a = .forsake := by
  cases a <;> simp [Phase.allows, Action.isReceiver] at h ⊢

/-- A run of a server, and where its receiver is. -/
structure Round where
  scene : Scene
  phase : Phase := .reaping

namespace Round

/-- What may happen next. -/
inductive Move where
  | act (a : Action)
  /-- Nothing is left to reap, and the receiver begins to read. -/
  | begin
  /-- The receiver is done with a round. -/
  | done

/-- What an action does. In a round the receiver reads from connections in their order. -/
def act (r : Round) (a : Action) : Round :=
  match r.phase, a with
  | .reading next, .read k =>
    if next ≤ k then
      { scene := { r.scene with server := r.scene.server.receiving (·.readOnce k) }
        phase := .reading (k + 1) }
    else r
  | .reading next, .failRead k =>
    if next ≤ k then { scene := r.scene.step (.failRead k), phase := .reading (k + 1) } else r
  | phase, a => if phase.allows a then { r with scene := r.scene.step a } else r

/-- What a move does. One that cannot happen does nothing. -/
def step (r : Round) : Move → Round
  | .act a => r.act a
  | .begin =>
    match r.phase with
    | .reaping =>
      if r.scene.server.connections.all (!·.dead) then { r with phase := .reading 0 } else r
    | .reading _ => r
  | .done => { r with phase := .reaping }

/-- What some moves do, one after the other. -/
def run (r : Round) (moves : List Move) : Round :=
  moves.foldl step r

theorem run_append (r : Round) (moves later : List Move) :
    r.run (moves ++ later) = (r.run moves).run later :=
  List.foldl_append ..

/-! ## What is still to be read lives -/

/-- The connections that the round may still read from are alive. -/
def Alive (r : Round) : Prop :=
  ∀ next, r.phase = .reading next →
    ∀ k c, next ≤ k → r.scene.server.connections[k]? = some c → c.dead = false

variable {r : Round}

theorem alive_reaping (scene : Scene) : Alive ⟨scene, .reaping⟩ := by
  intro next h
  simp at h

/-- The receiver has read from the connection at a place, and none later has changed. -/
theorem Alive.past {next k : Nat} {scene scene' : Scene} (h : Alive ⟨scene, .reading next⟩)
    (hle : next ≤ k) (hsame : ∀ i, k ≠ i →
      scene'.server.connections[i]? = scene.server.connections[i]?) :
    Alive ⟨scene', .reading (k + 1)⟩ := by
  rintro next' hphase i c hi hc
  obtain rfl : k + 1 = next' := by simpa using hphase
  have hne : k ≠ i := by omega
  exact h next rfl i c (by omega) ((hsame i hne).symm.trans hc)

theorem Alive.same {scene scene' : Scene} {phase : Phase} (h : Alive ⟨scene, phase⟩)
    (hc : scene'.server.connections = scene.server.connections) : Alive ⟨scene', phase⟩ := by
  intro next hphase k c hle hk
  exact h next hphase k c hle (hc ▸ hk)

theorem Alive.accept {scene : Scene} {phase : Phase} (h : Alive ⟨scene, phase⟩) :
    Alive ⟨scene.step .accept, phase⟩ := by
  rcases scene.connections_accept with hc | ⟨new, hnew, hc⟩
  · exact h.same hc
  · intro next hphase k c hle hk
    have hk : (scene.server.connections ++ [new])[k]? = some c := hc ▸ hk
    rcases Nat.lt_or_ge k scene.server.connections.length with hlt | hge
    · rw [List.getElem?_append_left hlt] at hk
      exact h next hphase k c hle hk
    · rw [List.getElem?_append_right hge] at hk
      obtain rfl : c = new := by simpa using List.mem_of_getElem? hk
      exact hnew

/-- In a round the guard that a connection live makes no difference. -/
theorem Alive.readOnce_eq {next k : Nat} {scene : Scene} (h : Alive ⟨scene, .reading next⟩)
    (hle : next ≤ k) :
    scene.server.receiving (·.readOnce k) = scene.server.receiving (·.readAt k) :=
  Server.receiving_readOnce_eq fun c hc => h next rfl k c hle hc

/-- What the receiver and the others can do. -/
theorem act_cases (r : Round) (a : Action) : r.act a = r ∨
    (r.phase.allows a = true ∧ r.act a = { r with scene := r.scene.step a }) ∨
    ∃ next k, r.phase = .reading next ∧ next ≤ k ∧
      ((a = .read k ∧ r.act a =
          ⟨{ r.scene with server := r.scene.server.receiving (·.readOnce k) }, .reading (k + 1)⟩) ∨
        (a = .failRead k ∧ r.act a = ⟨r.scene.step (.failRead k), .reading (k + 1)⟩)) := by
  unfold act
  split
  · rename_i next k hp
    split
    · rename_i hle
      exact .inr (.inr ⟨next, k, hp, hle, .inl ⟨rfl, rfl⟩⟩)
    · exact .inl rfl
  · rename_i next k hp
    split
    · rename_i hle
      exact .inr (.inr ⟨next, k, hp, hle, .inr ⟨rfl, rfl⟩⟩)
    · exact .inl rfl
  · split
    · rename_i ha
      exact .inr (.inl ⟨ha, rfl⟩)
    · exact .inl rfl

theorem Alive.act (h : r.Alive) (a : Action) : (r.act a).Alive ∧ r.scene.Leads (r.act a).scene := by
  obtain ⟨scene, phase⟩ := r
  rcases act_cases ⟨scene, phase⟩ a with he | ⟨ha, he⟩ |
    ⟨next, k, rfl, hle, ⟨rfl, he⟩ | ⟨rfl, he⟩⟩
  · exact he.symm ▸ ⟨h, .refl _⟩
  · rw [he]
    refine ⟨?_, .step scene a⟩
    cases phase with
    | reaping => exact alive_reaping _
    | reading next =>
        rcases Phase.allows_reading ha with rfl | rfl | ha
        · exact h.accept
        · exact h.same scene.server.connections_turnAway
        · exact h.same (Scene.connections_step ha)
  · rw [he, h.readOnce_eq hle]
    exact ⟨h.past hle fun i hi => scene.getElem?_connections_read hi, .step scene (.read k)⟩
  · rw [he]
    exact ⟨h.past hle fun i hi => scene.getElem?_connections_failRead hi, .step scene (.failRead k)⟩

/-- A move is an action of the scene or none, and what is still to be read lives. -/
theorem Alive.step (h : r.Alive) (m : Move) :
    (r.step m).Alive ∧ r.scene.Leads (r.step m).scene := by
  cases m with
  | act a => exact h.act a
  | done => exact ⟨alive_reaping _, .refl _⟩
  | begin =>
      obtain ⟨scene, _ | next⟩ := r
      · simp only [Round.step]
        split
        · rename_i hall
          refine ⟨fun next _ k c _ hc => ?_, .refl _⟩
          simpa using List.all_eq_true.mp hall c (List.mem_of_getElem? hc)
        · exact ⟨h, .refl _⟩
      · exact ⟨h, .refl _⟩

theorem Alive.run (h : r.Alive) (moves : List Move) :
    (r.run moves).Alive ∧ r.scene.Leads (r.run moves).scene := by
  induction moves generalizing r with
  | nil => exact ⟨h, .refl _⟩
  | cons m moves ih =>
      obtain ⟨hs, hl⟩ := h.step m
      obtain ⟨hr, hlater⟩ := ih hs
      exact ⟨hr, hl.trans hlater⟩

/-! ## A round keeps its places -/

/-- Some moves lead from one round to another. -/
def Leads (r t : Round) : Prop :=
  ∃ moves, r.run moves = t

theorem Leads.refl (r : Round) : r.Leads r :=
  ⟨[], rfl⟩

theorem Leads.step (r : Round) (m : Move) : r.Leads (r.step m) :=
  ⟨[m], rfl⟩

theorem Leads.trans {t u : Round} (h : r.Leads t) (h' : t.Leads u) : r.Leads u := by
  obtain ⟨first, rfl⟩ := h
  obtain ⟨second, rfl⟩ := h'
  exact ⟨first ++ second, run_append ..⟩

theorem act_of_allows {phase : Phase} {a : Action} (h : phase.allows a = true) (scene : Scene) :
    act ⟨scene, phase⟩ a = ⟨scene.step a, phase⟩ := by
  rcases act_cases ⟨scene, phase⟩ a with he | ⟨-, he⟩ | ⟨next, k, rfl, -, ⟨rfl, -⟩ | ⟨rfl, -⟩⟩
  · unfold act at he ⊢
    split at he <;> simp_all [Phase.allows, Action.isReceiver]
  · exact he
  · simp [Phase.allows, Action.isReceiver] at h
  · simp [Phase.allows, Action.isReceiver] at h

theorem leads_acts {phase : Phase} {actions : List Action}
    (h : ∀ a ∈ actions, phase.allows a = true) (scene : Scene) :
    Leads ⟨scene, phase⟩ ⟨scene.run actions, phase⟩ := by
  induction actions generalizing scene with
  | nil => exact .refl _
  | cons a actions ih =>
      obtain ⟨ha, h⟩ := List.forall_mem_cons.mp h
      have hs := Leads.step ⟨scene, phase⟩ (.act a)
      rw [Round.step, act_of_allows ha] at hs
      exact hs.trans (ih h (scene.step a))

theorem act_read {next k : Nat} (h : next ≤ k) (scene : Scene) :
    act ⟨scene, .reading next⟩ (.read k) =
      ⟨{ scene with server := scene.server.receiving (·.readOnce k) }, .reading (k + 1)⟩ :=
  if_pos h

/-- Reads from connections in their order happen in one round. -/
theorem Alive.leads_reads {scene : Scene} {next : Nat} (h : Alive ⟨scene, .reading next⟩)
    {ks : List Nat} (hsorted : ks.Pairwise (· < ·)) (hle : ∀ k ∈ ks, next ≤ k) :
    ∃ last, Leads ⟨scene, .reading next⟩ ⟨scene.run (ks.map .read), .reading last⟩ := by
  induction ks generalizing scene next with
  | nil => exact ⟨next, .refl _⟩
  | cons k ks ih =>
      obtain ⟨hk, hle⟩ := List.forall_mem_cons.mp hle
      obtain ⟨hlt, hsorted⟩ := List.pairwise_cons.mp hsorted
      have hs : Round.step ⟨scene, .reading next⟩ (.act (.read k)) =
          ⟨scene.step (.read k), .reading (k + 1)⟩ := by
        have hread := act_read hk scene
        rw [h.readOnce_eq hk] at hread
        exact hread
      obtain ⟨last, hl⟩ := ih (hs ▸ (h.step (.act (.read k))).1) hsorted hlt
      exact ⟨last, (hs ▸ Leads.step ⟨scene, .reading next⟩ (.act (.read k))).trans hl⟩

theorem leads_reapDead {s : Server} (hs : s.fallen = none) (leaving : List ClientId) :
    Leads ⟨⟨s, leaving⟩, .reaping⟩ ⟨⟨s.reapDead, leaving⟩, .reaping⟩ := by
  obtain ⟨ks, hk⟩ := Server.exists_reapDead hs leaving
  rw [← hk]
  refine leads_acts (fun a ha => ?_) _
  obtain ⟨k, -, rfl⟩ := List.mem_map.mp ha
  rfl

theorem leads_acceptAll {s : Server} (hs : s.fallen = none) (leaving : List ClientId) (next : Nat) :
    Leads ⟨⟨s, leaving⟩, .reading next⟩ ⟨⟨s.acceptAll, leaving⟩, .reading next⟩ := by
  rw [← Server.run_acceptAll hs leaving]
  refine leads_acts (fun a ha => ?_) _
  obtain ⟨i, -, rfl⟩ := List.mem_map.mp ha
  rfl

theorem leads_forsakeAll (s : Server) (leaving : List ClientId) (next : Nat) :
    Leads ⟨⟨s, leaving⟩, .reading next⟩ ⟨⟨s.forsakeAll, leaving⟩, .reading next⟩ := by
  rw [← s.run_forsaking leaving]
  refine leads_acts (fun a ha => ?_) _
  rcases List.mem_append.mp ha with ha | ha
  · obtain ⟨i, -, rfl⟩ := List.mem_map.mp ha
    rfl
  · obtain ⟨c, -, rfl⟩ := List.mem_map.mp ha
    rfl

/-- A poll is a round. -/
theorem leads_poll (s : Server) (leaving : List ClientId) :
    Leads ⟨⟨s, leaving⟩, .reaping⟩ ⟨⟨s.poll, leaving⟩, .reaping⟩ := by
  refine Server.receiving_ind
    (P := fun t => Leads ⟨⟨s, leaving⟩, .reaping⟩ ⟨⟨t, leaving⟩, .reaping⟩) (.refl _) fun hs => ?_
  have hreaped := leads_reapDead hs leaving
  cases hh : s.reapDead.hard with
  | true =>
      simp only [hh, if_true]
      exact hreaped
  | false =>
      have hbegin : Round.step ⟨⟨s.reapDead, leaving⟩, .reaping⟩ .begin =
          ⟨⟨s.reapDead, leaving⟩, .reading 0⟩ := by
        refine if_pos (List.all_eq_true.mpr fun c hc => ?_)
        simpa using s.dead_of_reapDead c hc
      have halive : Alive ⟨⟨s.reapDead, leaving⟩, .reading 0⟩ :=
        hbegin ▸ ((alive_reaping _).step .begin).1
      obtain ⟨ks, hsorted, hread⟩ := Server.exists_readReady s.dead_of_reapDead leaving
      obtain ⟨last, hreads⟩ := halive.leads_reads hsorted fun k _ => Nat.zero_le k
      rw [hread] at hreads
      have hround := (hreaped.trans (hbegin ▸ .step _ .begin)).trans hreads
      simp only [hh, Bool.false_eq_true, if_false]
      split
      · exact (hround.trans (leads_forsakeAll _ leaving last)).trans (.step _ .done)
      · rename_i hf
        exact (hround.trans (leads_acceptAll (Option.not_isSome_iff_eq_none.mp hf) leaving
          last)).trans (.step _ .done)

theorem leads_windUp (s : Server) (leaving : List ClientId) :
    Leads ⟨⟨s, leaving⟩, .reaping⟩ ⟨⟨s.windUp, leaving⟩, .reaping⟩ := by
  refine Server.receiving_ind
    (P := fun t => Leads ⟨⟨s, leaving⟩, .reaping⟩ ⟨⟨t, leaving⟩, .reaping⟩) (.refl _) fun hs => ?_
  have hallowed : Phase.reaping.allows .sever = true := rfl
  have hsever := Leads.step ⟨⟨s, leaving⟩, .reaping⟩ (.act .sever)
  simp only [Round.step, act_of_allows hallowed, Scene.step, Server.receiving_of_standing hs]
    at hsever
  exact hsever.trans (leads_reapDead ((Server.fallen_sever s).trans hs) leaving)

/-- What the receiver does until it stops are rounds. -/
theorem leads_receive {s t : Server} (h : s.receive? = some t) (leaving : List ClientId) :
    Leads ⟨⟨s, leaving⟩, .reaping⟩ ⟨⟨t, leaving⟩, .reaping⟩ :=
  Server.receive_rel (R := fun s t => Leads ⟨⟨s, leaving⟩, .reaping⟩ ⟨⟨t, leaving⟩, .reaping⟩)
    (fun _ => .refl _) .trans (leads_poll · leaving) (leads_windUp · leaving) h

/-! ## What a read finds -/

/-- What holds of the receiver's connections at any moment. -/
structure Attentive (r : Round) : Prop where
  /-- A connection that may be read in this round lives, and its reader's sink is not empty. -/
  reads : r.scene.server.fallen = none → ∀ next, r.phase = .reading next →
    ∀ k c, next ≤ k → r.scene.server.connections[k]? = some c →
      c.dead = false ∧ 0 < c.reader.wanted ∧ c.reader.sink.length = c.reader.wanted
  /-- So where there is something to read, reading no byte means that the stream has ended. -/
  ended : r.scene.server.fallen = none → ∀ next, r.phase = .reading next →
    ∀ k c d, next ≤ k → r.scene.server.connections[k]? = some c →
      r.scene.server.stream? c.stream = some d → d.readable = true →
      (d.up.take c.reader.wanted).1 = [] →
      d.up.unread = [] ∧ (d.upEnded = true ∨ d.hungUp = true)
  /-- A connection whose reader has refused a header is dead. -/
  refused : r.scene.server.fallen = none →
    ∀ c ∈ r.scene.server.connections, c.reader.wanted = 0 → c.dead = true
  /-- A receiver falls for a length that its limit allows and no buffer can hold, and then nothing
  more is read. -/
  fallen : r.scene.server.fallen ≠ none →
    Bytes.maxSize < r.scene.server.settings.maxMessage ∧
      ∀ moves, (r.run moves).scene.server.ledger.bytesRead = r.scene.server.ledger.bytesRead

/-- A connection that lives is in the middle of a frame, while the receiver stands. -/
theorem wanted_pos_of_live {scene : Scene} (h : scene.server.ledger.Kept)
    (hf : scene.server.fallen = none) {c : Connection} (hc : c ∈ scene.server.connections)
    (hd : c.dead = false) : 0 < c.reader.wanted := by
  obtain ⟨parsed, hnone, hfollows⟩ := h.going (by simp [Server.ledger, hf]) hc hd
  exact (hfollows.going hnone).1.wanted_pos

theorem Alive.attentive (h : r.Alive) {settings : Settings} {store : Store} {workers : Nat}
    {dice : Dice} (hl : (Scene.start settings store workers dice).Leads r.scene) : r.Attentive := by
  obtain ⟨actions, hrun⟩ := hl
  have hkept : r.scene.server.ledger.Kept :=
    hrun ▸ Scene.kept_run settings store workers dice actions
  exact {
    reads := fun hf next hp k c hle hk =>
      have hd := h next hp k c hle hk
      ⟨hd, wanted_pos_of_live hkept hf (List.mem_of_getElem? hk) hd, c.reader.length_sink⟩
    ended := fun hf next hp k c d hle hk hs hr ht =>
      have hd := h next hp k c hle hk
      Duplex.ended_of_take_eq_nil (wanted_pos_of_live hkept hf (List.mem_of_getElem? hk) hd) hr ht
    refused := fun hf c hc hw => by
      by_contra hd
      exact Nat.ne_of_gt (wanted_pos_of_live hkept hf hc (by simpa using hd)) hw
    fallen := fun hf => by
      refine ⟨?_, fun moves => ?_⟩
      · by_contra hle
        have hsettings : r.scene.server.settings = settings := hrun ▸ Scene.settings_run _ actions
        rw [hsettings] at hle
        exact hf (hrun ▸ Scene.fallen_run (Nat.le_of_not_lt hle) store workers dice actions)
      · obtain ⟨later, hlater⟩ := (h.run moves).2
        rw [← hlater]
        exact (Scene.run_of_fallen hkept (Option.isSome_iff_ne_none.mpr hf) later).2.1 }

/-- However a new reader is written to, fed and filled, as long as no more is reported than is
wanted, its sink is as long as what it wants, it wants something until it refuses a header and
nothing afterwards, and within a payload it wants just the rest. With a limit that a buffer can
hold, a header is refused for its length being over the limit and for nothing else.
In every run the receiver reads only from connections that want something, whatever clients and
workers do meanwhile: a connection whose reader refuses is dead, and one that is dead is not read
again before it is reaped. So a read of no bytes means that the stream has ended. A reader that
panics ends the receiver's reading. The polls of a receiver, and all that it does until it stops,
are such runs. -/
theorem reads_what_is_wanted (limit : Nat) (acts : List FrameReader.Act)
    (h : FrameReader.Handled.Fits ⟨{ limit }, none⟩ acts) (settings : Settings) (store : Store)
    (workers : Nat) (dice : Dice) (moves : List Move) :
    let s := FrameReader.Handled.run ⟨{ limit }, none⟩ acts
    s.Exact limit ∧
    (limit ≤ Bytes.maxSize → (∀ declared, s.last ≠ some (.error (.tooLarge declared limit))) →
      0 < s.reader.wanted) ∧
    (run ⟨Scene.start settings store workers dice, .reaping⟩ moves).Attentive ∧
    ∀ t leaving, Leads ⟨⟨t, leaving⟩, .reaping⟩ ⟨⟨t.poll, leaving⟩, .reaping⟩ ∧
      ∀ u, t.receive? = some u → Leads ⟨⟨t, leaving⟩, .reaping⟩ ⟨⟨u, leaving⟩, .reaping⟩ := by
  intro s
  have hexact : s.Exact limit := FrameReader.Handled.exact_run h
  refine ⟨hexact, fun hlimit hlast => hexact.wanted_pos fun e he => ?_, ?_, fun t leaving =>
    ⟨leads_poll t leaving, fun u hu => leads_receive hu leaving⟩⟩
  · rcases hexact.refusal e he with ⟨declared, -, rfl⟩ | ⟨declared, hmax, hle, -⟩
    · exact hlast declared he
    · omega
  · obtain ⟨halive, hleads⟩ :=
      (alive_reaping (Scene.start settings store workers dice)).run moves
    exact halive.attentive hleads

/-- A run in which a client sends a header over the limit, and the receiver cannot begin another
round of reading before it has reaped the connection. -/
def overlong : Round :=
  run ⟨Scene.start { maxMessage := 16 } (.empty 2 9 .single .fifo ⟨fun _ => 0, 0⟩) 1 ⟨id, 0⟩, .reaping⟩
    [.act .connect, .begin, .act .accept, .done, .act (.send 0 [0, 0, 0, 0, 0, 0, 0, 17, 1]), .begin,
      .act (.read 0), .done, .begin, .act (.read 0)]

/-- A payload of two bytes is complete with the second one. The connection with the refused header
is dead, and has not been read again. -/
theorem reads_what_is_wanted_two_bytes :
    FrameReader.Handled.Fits ⟨{ limit := 16 }, none⟩
      [.write [0, 0, 0, 0, 0, 0, 0, 2], .feed 8, .fill [7]] ∧
    (FrameReader.Handled.run ⟨{ limit := 16 }, none⟩
      [.write [0, 0, 0, 0, 0, 0, 0, 2], .feed 8, .fill [7], .fill [8, 9]]).last =
        some (.ok (.message [7, 8])) ∧
    overlong.phase = .reaping ∧ overlong.scene.server.connections.map Connection.dead = [true] ∧
    overlong.scene.server.streams.map (·.up.unread) = [[1]] := by
  have hfits : FrameReader.Handled.Fits ⟨{ limit := 16 }, none⟩
      [.write [0, 0, 0, 0, 0, 0, 0, 2], .feed 8, .fill [7]] :=
    ⟨trivial, Nat.le_refl 8, trivial, trivial⟩
  obtain ⟨hexact, -, hattentive, -⟩ := reads_what_is_wanted 16 _ hfits { maxMessage := 16 }
    (.empty 2 9 .single .fifo ⟨fun _ => 0, 0⟩) 1 ⟨id, 0⟩
    [.act .connect, .begin, .act .accept, .done, .act (.send 0 [0, 0, 0, 0, 0, 0, 0, 17, 1]), .begin,
      .act (.read 0), .done, .begin, .act (.read 0)]
  have hrun : FrameReader.Handled.run ⟨{ limit := 16 }, none⟩
      [.write [0, 0, 0, 0, 0, 0, 0, 2], .feed 8, .fill [7]] =
        ⟨{ limit := 16, received := .payload 2 [7] }, some (.ok (.needs 1))⟩ := by decide +kernel
  have hconn : overlong.scene.server.connections =
      [⟨⟨0⟩, 0, { limit := 16, received := .header [0, 0, 0, 0, 0, 0, 0, 17] }, true⟩] := by
    decide +kernel
  refine ⟨hfits, ?_, rfl, ?_, by decide +kernel⟩
  · rw [hrun] at hexact
    obtain ⟨-, hpayload⟩ := hexact.payload 2 [7] rfl
    obtain ⟨-, -, hlast⟩ := hpayload [] trivial (by decide)
    obtain ⟨-, hmessage, -⟩ := hlast (.fill [8, 9]) trivial (by decide)
    have happend := FrameReader.Handled.run_append ⟨{ limit := 16 }, none⟩
      [.write [0, 0, 0, 0, 0, 0, 0, 2], .feed 8, .fill [7]] [.fill [8, 9]]
    rw [hrun] at happend
    exact (congrArg FrameReader.Handled.last happend).trans hmessage
  · have hdead := hattentive.refused (by decide +kernel)
    change ∀ c ∈ overlong.scene.server.connections, _ at hdead
    rw [hconn] at hdead ⊢
    exact congrArg ([·]) (hdead _ (List.mem_singleton.mpr rfl) (by decide))

end Round

end FileDepot
