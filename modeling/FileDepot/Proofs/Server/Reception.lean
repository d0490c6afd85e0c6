import FileDepot.Proofs.Server.Posting

/-! # What the receiver makes of what it reads

In every run, each worker's queue is what was posted to it, less what it has pulled; under sticky
selection that is all messages of its clients. When the receiver stops, each connection it had has
been hung up on once. -/

namespace FileDepot

/-- Whether an action has a worker pull. -/
def Action.pulls (w : Nat) : Action → Bool
  | .pull v => v = w
  | _ => false

namespace Ledger

variable {L L' : Ledger} {a : Action}

/-! ## Workers and their queues -/

/-- Every message went to a worker that may be picked for its sender. -/
def Placed (L : Ledger) : Prop :=
  ∀ p ∈ L.posted, L.Picks p.2.sender p.1

theorem Placed.step (h : L.Placed) (hs : L.Step a L') : L'.Placed := by
  obtain ⟨c, w, ms, hw, hm, hp⟩ := hs.posted_eq
  intro p hmem
  rw [hs.picks_iff]
  rcases List.mem_append.mp (hp ▸ hmem) with hmem | hmem
  · exact h p hmem
  · obtain ⟨m, hin, rfl⟩ := List.mem_map.mp hmem
    exact hm m hin ▸ hw

theorem placed_start (settings : Settings) (workers : Nat) : (start settings workers).Placed :=
  fun _ hp => absurd hp List.not_mem_nil

/-- What is queued for a worker is what was posted to it, less at most `n` messages at the front. -/
def Backlog (L : Ledger) (w n : Nat) : Prop :=
  ∀ x, L.workers[w]? = some x →
    ∃ pulled, pulled.length ≤ n ∧ L.postedTo w = pulled ++ x.queue

theorem postedTo_post (L : Ledger) (v w : Nat) (ms : List Message) :
    (L.post v ms).postedTo w = L.postedTo w ++ if v = w then ms else [] := by
  rw [postedTo, postedTo, post, List.filter_append, List.map_append]
  by_cases hv : v = w
  · simp [hv, List.filter_map, Function.comp_def, List.map_map]
  · simp [hv, List.filter_map, Function.comp_def]

theorem Backlog.post {w n : Nat} (h : L.Backlog w n) (v : Nat) (ms : List Message) :
    (L.post v ms).Backlog w n := by
  intro x hx
  obtain ⟨y, hy, rfl⟩ := exists_of_onWorker (L := L) hx
  obtain ⟨pulled, hn, hq⟩ := h y hy
  refine ⟨pulled, hn, ?_⟩
  rw [postedTo_post, hq]
  split <;> simp

/-- A worker that takes some messages from the front of its queue has pulled so many more. -/
theorem Backlog.onWorker {w n v : Nat} {x y : Worker} {taken : List Message} (h : L.Backlog w n)
    (hv : L.workers[v]? = some x) (hq : x.queue = taken ++ y.queue) :
    (L.onWorker v fun _ => y).Backlog w (n + if v = w then taken.length else 0) := by
  intro z hz
  obtain ⟨z', hz', rfl⟩ := exists_of_onWorker hz
  obtain ⟨pulled, hn, hp⟩ := h z' hz'
  by_cases he : v = w
  · subst he
    obtain rfl : x = z' := Option.some.inj (hv.symm.trans hz')
    refine ⟨pulled ++ taken, ?_, ?_⟩
    · simpa using hn
    · rw [if_pos rfl, List.append_assoc, ← hq]
      exact hp
  · simp only [he, if_false]
    exact ⟨pulled, hn, hp⟩

theorem Backlog.mono {w n k : Nat} (h : L.Backlog w n) (hle : n ≤ k) : L.Backlog w k := by
  intro x hx
  obtain ⟨pulled, hn, hp⟩ := h x hx
  exact ⟨pulled, Nat.le_trans hn hle, hp⟩

theorem Backlog.step {w n : Nat} (h : L.Backlog w n) (hs : L.Step a L') :
    L'.Backlog w (n + if a.pulls w then 1 else 0) := by
  have hkeep : ∀ {v : Nat} {x y : Worker}, L.workers[v]? = some x → y.queue = x.queue →
      (L.onWorker v fun _ => y).Backlog w n := by
    intro v x y hv hq
    have hnone : x.queue = [] ++ y.queue := hq.symm
    simpa using h.onWorker hv hnone
  cases hs with
  | mark | stop | sever | close | cutOff | connect | send | turnAway | accept =>
      exact Backlog.mono h (Nat.le_add_right ..)
  | read | reap => exact (Backlog.post h _ _).mono (Nat.le_add_right ..)
  | @pull v m queue hv =>
      have hone : (⟨m :: queue, .idle⟩ : Worker).queue =
        [m] ++ (⟨queue, .serving m⟩ : Worker).queue := rfl
      simpa [Action.pulls] using h.onWorker hv hone
  | answer hv => exact Backlog.mono (hkeep (y := ⟨_, .served _⟩) hv rfl) (Nat.le_add_right ..)
  | heed hv => exact Backlog.mono (hkeep (y := ⟨_, .served _⟩) hv rfl) (Nat.le_add_right ..)
  | letGo hv => exact Backlog.mono (hkeep (y := ⟨_, .idle⟩) hv rfl) (Nat.le_add_right ..)

theorem backlog_start (settings : Settings) (workers : Nat) (w : Nat) :
    (start settings workers).Backlog w 0 := by
  intro x hx
  have hnew : x = {} := List.eq_of_mem_replicate (List.mem_of_getElem? hx)
  exact ⟨[], Nat.le_refl _, hnew ▸ rfl⟩

/-! ## The end -/

/-- Once every connection counts as dead, that stays so while no client is accepted. -/
theorem Step.dead (h : L.Step a L') (ha : a ≠ .accept) (hd : ∀ k ∈ L.connections, k.dead = true) :
    ∀ k ∈ L'.connections, k.dead = true := by
  cases h with
  | mark _ hlive =>
      intro k hk
      cases hdead : k.dead with
      | true => rfl
      | false => exact hdead ▸ hd k (hlive k hk hdead)
  | sever =>
      intro k hk
      obtain ⟨c, -, rfl⟩ := List.mem_map.mp hk
      rfl
  | accept => exact absurd rfl ha
  | read _ hk hlive =>
      exact absurd (hd _ (List.mem_of_getElem? hk)) (by simp [hlive])
  | reap => exact fun k hk => hd k (List.mem_of_mem_eraseIdx hk)
  | stop | close | cutOff | connect | send | turnAway | pull | answer | heed | letGo => exact hd

end Ledger

namespace Server

section Relation

variable {R : Server → Server → Prop} {s t : Server}

/-- What every poll ensures, polling until the receiver should stop does. -/
theorem pollUntilDead_rel (hrefl : ∀ s, R s s) (htrans : ∀ {s t u}, R s t → R t u → R s u)
    (hpoll : ∀ s : Server, R s s.poll) {fuel : Nat} (h : pollUntilDead fuel s = some t) : R s t := by
  induction fuel generalizing s with
  | zero =>
      unfold pollUntilDead at h
      split at h
      · exact Option.some.inj h ▸ hrefl s
      · simp at h
  | succ fuel ih =>
      unfold pollUntilDead at h
      split at h
      · exact Option.some.inj h ▸ hrefl s
      · exact htrans (hpoll s) (ih h)

/-- What every poll and the end of a receiver ensure, all that it does until it stops does. -/
theorem receive_rel (hrefl : ∀ s, R s s) (htrans : ∀ {s t u}, R s t → R t u → R s u)
    (hpoll : ∀ s : Server, R s s.poll) (hwindUp : ∀ s : Server, R s s.windUp)
    (h : s.receive? = some t) : R s t := by
  unfold receive? at h
  split at h
  · obtain ⟨u, hu, rfl⟩ := Option.map_eq_some_iff.mp h
    exact htrans (pollUntilDead_rel hrefl htrans hpoll hu) (hwindUp u)
  · simp at h

end Relation

/-- What the receiver does until it stops is a run. -/
theorem leads_receive {s t : Server} (h : s.receive? = some t) (leaving : List ClientId) :
    Scene.Leads ⟨s, leaving⟩ ⟨t, leaving⟩ :=
  receive_rel (R := fun s t => Scene.Leads ⟨s, leaving⟩ ⟨t, leaving⟩) (fun _ => .refl _) .trans
    (leads_poll · leaving) (leads_windUp · leaving) h

theorem isDone_of_pollUntilDead {fuel : Nat} {s t : Server} (h : pollUntilDead fuel s = some t) :
    t.isDone = true := by
  induction fuel generalizing s with
  | zero =>
      unfold pollUntilDead at h
      split at h
      · rename_i hd
        exact Option.some.inj h ▸ hd
      · simp at h
  | succ fuel ih =>
      unfold pollUntilDead at h
      split at h
      · rename_i hd
        exact Option.some.inj h ▸ hd
      · exact ih h

/-- When the receiver stops, it has no connection left. -/
theorem connections_of_receive {s t : Server} (h : s.receive? = some t) : t.connections = [] := by
  unfold receive? at h
  split at h
  · obtain ⟨u, hu, rfl⟩ := Option.map_eq_some_iff.mp h
    have hw : u.windUp = u.sever.reapDead :=
      receiving_of_standing (fallen_of_isDone (isDone_of_pollUntilDead hu))
    rw [hw, connections_reapDead, List.filter_eq_nil_iff]
    intro k hk
    obtain ⟨c, -, rfl⟩ := List.mem_map.mp hk
    simp
  · simp at h

end Server

namespace Scene

variable {r : Scene}

theorem backlog_run {w n : Nat} (h : r.server.ledger.Backlog w n) (actions : List Action) :
    (r.run actions).server.ledger.Backlog w (n + actions.countP (Action.pulls w)) := by
  induction actions generalizing r n with
  | nil => exact h
  | cons a actions ih =>
      have hs := ih (h.step (r.step_ledger a))
      rw [List.countP_cons, ← Nat.add_assoc, Nat.add_right_comm]
      exact hs

theorem dead_run (hd : ∀ k ∈ r.server.connections, k.dead = true) {actions : List Action}
    (ha : .accept ∉ actions) : ∀ k ∈ (r.run actions).server.connections, k.dead = true := by
  induction actions generalizing r with
  | nil => exact hd
  | cons a actions ih =>
      obtain ⟨hne, ha⟩ := not_or.mp (mt List.mem_cons.mpr ha)
      exact ih ((r.step_ledger a).dead (Ne.symm hne) hd) ha

section Start

variable (settings : Settings) (store : Store) (workers : Nat) (dice : Dice) (actions : List Action)

theorem posts_run : let L := ((start settings store workers dice).run actions).server.ledger
    ∀ h ∈ L.accepted, L.posts h.client =
      h.requests settings.maxMessage (L.bytesRead h.stream) ++
        if h.client ∈ L.connections.map Connection.id then [] else [h.hangUp] := by
  intro L h hh
  have hp := (kept_run settings store workers dice actions).posts_eq_requests hh
  have hs : L.settings = settings := settings_run _ actions
  exact hs ▸ hp

/-- Where no connection is left, each has had its hang-up posted. -/
theorem posts_run_of_nil : let t := ((start settings store workers dice).run actions).server
    t.connections = [] → ∀ h ∈ t.ledger.accepted, t.ledger.posts h.client =
      h.requests settings.maxMessage (t.ledger.bytesRead h.stream) ++ [h.hangUp] := by
  intro t hnone h hh
  have hgone : h.client ∉ t.connections.map Connection.id := by simp [hnone]
  exact (posts_run settings store workers dice actions h hh).trans (congrArg _ (if_neg hgone))

theorem placed_run : ((start settings store workers dice).run actions).server.ledger.Placed :=
  ledger_run (fun h hs => h.step hs) (Ledger.placed_start settings workers) actions

end Start

/-- What a receiver has made of what it has read after some actions of a run: each accepted
connection gets the messages that it has coming, and nothing else is posted. -/
structure Received (first : Scene) (actions : List Action) : Prop where
  /-- Accepted connections have clients and streams of their own. -/
  clients_nodup : ((first.run actions).server.ledger.accepted.map Hold.client).Nodup
  streams_nodup : ((first.run actions).server.ledger.accepted.map Hold.stream).Nodup
  /-- The messages posted for a connection are the requests in the bytes read from it, in their
  order, and then one hang-up just when it has been reaped. -/
  posts_eq : let L := (first.run actions).server.ledger
    ∀ h ∈ L.accepted, L.posts h.client =
      h.requests first.server.settings.maxMessage (L.bytesRead h.stream) ++
        if h.client ∈ L.connections.map Connection.id then [] else [h.hangUp]
  /-- All messages are from accepted connections and went to workers. Under sticky selection that is
  the worker with the number of the client. -/
  placed : ∀ p ∈ (first.run actions).server.ledger.posted,
    p.2.hold ∈ (first.run actions).server.ledger.accepted ∧ p.1 < first.server.workers.length ∧
      (first.server.settings.selection = .sticky →
        p.1 = p.2.sender.number % first.server.workers.length)
  /-- A worker's queue is what was posted to it, less what it has pulled. -/
  queue_eq : ∀ w x, (first.run actions).server.workers[w]? = some x → ∃ pulled,
    pulled.length ≤ actions.countP (Action.pulls w) ∧
      (first.run actions).server.ledger.postedTo w = pulled ++ x.queue
  /-- Another run that reads the same bytes from a connection posts the same for it. -/
  posts_eq_of_bytesRead : ∀ others, let L := (first.run actions).server.ledger
    let L' := (first.run others).server.ledger
    ∀ h ∈ L.accepted, h ∈ L'.accepted → L'.bytesRead h.stream = L.bytesRead h.stream →
      (h.client ∈ L'.connections.map Connection.id ↔
        h.client ∈ L.connections.map Connection.id) → L'.posts h.client = L.posts h.client
  /-- Once the receiver has stopped, it has no connection left, and each had one hang-up posted. -/
  stopped : ∀ t, (first.run actions).server.receive? = some t →
    t.connections = [] ∧ ∀ h ∈ t.ledger.accepted, t.ledger.posts h.client =
      h.requests first.server.settings.maxMessage (t.ledger.bytesRead h.stream) ++ [h.hangUp]
  /-- That is also so with other actions in between, if the receiver has not fallen before. -/
  severed : (first.run actions).server.fallen = none → ∀ later, .accept ∉ later →
    let t := (((first.run actions).step .sever).run later).server
    (∀ k ∈ t.connections, k.dead = false) → t.connections = [] ∧ ∀ h ∈ t.ledger.accepted,
      t.ledger.posts h.client =
        h.requests first.server.settings.maxMessage (t.ledger.bytesRead h.stream) ++ [h.hangUp]

/-- In every run, whatever clients, workers and the receiver do and in whatever order, the receiver
neither loses nor doubles, reorders or mixes messages, and when it stops it has hung up on each
connection once. One that panics in the middle has posted what it was to post until then. -/
theorem posts_eq_frames_read (settings : Settings) (store : Store) (workers : Nat)
    (hw : 0 < workers) (dice : Dice) (actions : List Action) :
    (start settings store workers dice).Received actions := by
  have hkept := kept_run settings store workers dice
  have hposts := posts_run settings store workers dice
  have hlen : (start settings store workers dice).server.workers.length = workers :=
    List.length_replicate
  refine {
    clients_nodup := (hkept actions).clients_nodup
    streams_nodup := (List.nodup_append.mp (hkept actions).streams_nodup).1
    posts_eq := hposts actions
    placed := ?_, queue_eq := ?_, posts_eq_of_bytesRead := ?_, stopped := ?_, severed := ?_ }
  · intro p hp
    obtain ⟨n, hn, hsticky⟩ := placed_run settings store workers dice actions p hp
    have hn : p.1 = n % workers := ((length_workers_run _ actions).trans hlen) ▸ hn
    have hs : ((start settings store workers dice).run actions).server.ledger.settings = settings :=
      settings_run _ actions
    rw [hs] at hsticky
    rw [hlen]
    exact ⟨(hkept actions).posted_accepted p hp, hn ▸ Nat.mod_lt _ hw, fun h => hsticky h ▸ hn⟩
  · intro w x hx
    have hb := backlog_run (r := start settings store workers dice)
      (Ledger.backlog_start settings workers w) actions
    rw [Nat.zero_add] at hb
    exact hb x hx
  · intro others L L' h hh hh' hread hreaped
    rw [hposts actions h hh]
    have hp := hposts others h hh'
    rw [hread] at hp
    exact hp.trans (congrArg _ (if_congr hreaped rfl rfl))
  · intro t ht
    have hnone := Server.connections_of_receive ht
    obtain ⟨later, hl⟩ :=
      Server.leads_receive ht ((start settings store workers dice).run actions).leaving
    have hend := posts_run_of_nil settings store workers dice (actions ++ later)
    rw [run_append, hl] at hend
    exact ⟨hnone, hend hnone⟩
  · intro hstands later ha t hlive
    have hdead : ∀ k ∈ t.connections, k.dead = true := by
      refine dead_run ?_ ha
      intro k hk
      simp only [step, Server.receiving_of_standing hstands] at hk
      obtain ⟨c, -, rfl⟩ := List.mem_map.mp hk
      rfl
    have hnone : t.connections = [] := List.eq_nil_iff_forall_not_mem.mpr fun k hk =>
      absurd (hdead k hk) (by simp [hlive k hk])
    have hend := posts_run_of_nil settings store workers dice (actions ++ .sever :: later)
    rw [run_append] at hend
    exact ⟨hnone, hend hnone⟩

/-- A run in which a client sends a frame in two pieces and the start of another one, and leaves.
The frame of a second client comes in between. -/
def cutShort : Scene :=
  (start {} (.empty 2 9 .single .fifo ⟨fun _ => 0, 0⟩) 2 ⟨id, 0⟩).run
    [.connect, .connect, .accept, .accept, .send 0 [0, 0, 0, 0, 0], .read 0,
      .send 1 (Frame.encode [1]), .send 0 [0, 0, 1, 7, 0, 0], .read 1, .read 0, .read 1, .read 0,
      .halfClose 0, .read 0, .read 0, .reap 0]

/-- Only the whole frame is posted, and then the hang-up. -/
theorem posts_eq_frames_read_cut_short :
    0 < 2 ∧ cutShort.server.ledger.posts ⟨0⟩ =
      [⟨⟨0⟩, 0, .request [7]⟩, ⟨⟨0⟩, 0, .hangUp⟩] := by
  have hacc : (⟨⟨0⟩, 0⟩ : Hold) ∈ cutShort.server.ledger.accepted := by
    have hall : cutShort.server.ledger.accepted = [⟨⟨0⟩, 0⟩, ⟨⟨1⟩, 1⟩] := by rfl
    simp [hall]
  have hgone : (⟨0⟩ : ClientId) ∉ cutShort.server.connections.map Connection.id := by
    decide +kernel
  have hread : cutShort.server.ledger.bytesRead 0 = Frame.encode [7] ++ [0, 0] := by decide +kernel
  have hframes : Hold.requests ⟨⟨0⟩, 0⟩ Frame.defaultLimit (Frame.encode [7] ++ [0, 0]) =
      [⟨⟨0⟩, 0, .request [7]⟩] := by
    rw [Hold.requests, Frame.parse_encode (by decide) (by decide), Frame.parse_of_lt (by decide)]
    rfl
  have hp := (posts_eq_frames_read {} (.empty 2 9 .single .fifo ⟨fun _ => 0, 0⟩) 2
    (by decide) ⟨id, 0⟩ _).posts_eq ⟨⟨0⟩, 0⟩ hacc
  have hposts : cutShort.server.ledger.posts ⟨0⟩ =
      Hold.requests ⟨⟨0⟩, 0⟩ Frame.defaultLimit (cutShort.server.ledger.bytesRead 0) ++
        [⟨⟨0⟩, 0, .hangUp⟩] := hp.trans (congrArg _ (if_neg hgone))
  rw [hread, hframes] at hposts
  exact ⟨by decide, hposts⟩

end Scene

end FileDepot
