import FileDepot.Proofs.Server.Release
import FileDepot.Proofs.Server.Replying

/-! # Malformed input is contained

Bytes of a client that form no request are read, reaped and served in steps that concern nobody
else. What is not the client's stays as it is in each of them, and the store but for the client's
own locks, which are released after its last message. The exception is a length that the limit
allows and no buffer can hold: the receiver panics, and all its clients lose their connections. -/

namespace FileDepot

/-! ## What is not a client's -/

/-- A payload that is no request. -/
def Garbled (payload : Bytes) : Prop :=
  ∃ why, Request.decode payload = .error why

instance (payload : Bytes) : Decidable (Garbled payload) :=
  match h : Request.decode payload with
  | .ok request => isFalse fun ⟨why, hw⟩ => by simp [h] at hw
  | .error why => isTrue ⟨why, h⟩

/-- A message that asks for nothing: the connection is gone, or its payload is no request. -/
def Message.Void (m : Message) : Prop :=
  ∀ payload, m.work = .request payload → Garbled payload

instance (m : Message) : Decidable m.Void :=
  match h : m.work with
  | .hangUp => isTrue fun payload hp => by simp [h] at hp
  | .request payload => decidable_of_iff (Garbled payload) (by simp [Message.Void, h])

/-- A hand without a client's messages that ask for nothing. -/
def Hand.besides (c : ClientId) : Hand → Hand
  | .idle => .idle
  | .serving m => if m.sender = c ∧ m.Void then .idle else .serving m
  | .served m => if m.sender = c ∧ m.Void then .idle else .served m

/-- A worker without a client's messages that ask for nothing. -/
def Worker.besides (c : ClientId) (x : Worker) : Worker :=
  ⟨x.queue.filter fun m => ¬(m.sender = c ∧ m.Void), x.hand.besides c⟩

/-- A stream but for how far it has been read, whether it has been hung up on, and its holders. -/
def Duplex.given (d : Duplex) : Duplex :=
  { d with up := { d.up with taken := 0 }, hungUp := false, holders := 0 }

/-- Whether an event is that a client is got rid of, or a message on the way to it. -/
def Event.Clears (c : ClientId) : Event → Prop
  | .posted _ m => m.sender = c ∧ m.Void
  | .reaped d | .released d => d = c
  | .rejected m _ => m.sender = c
  | .accepted .. | .applied .. => False

/-- Two stores that differ in nothing but the locks of one client. -/
structure Store.AlikeBut (c : ClientId) (s t : Store) : Prop where
  maxFiles_eq : t.maxFiles = s.maxFiles
  maxBytes_eq : t.maxBytes = s.maxBytes
  placement_eq : t.buckets.placement = s.buckets.placement
  files_eq : t.files.map (File.releasedBy c) = s.files.map (File.releasedBy c)
  chooser_eq : t.chooser = s.chooser
  totals_eq : t.totals = s.totals
  nextGeneration_eq : t.nextGeneration = s.nextGeneration

/-- A server before and after getting rid of malformed input of a client. Whether the receiver has
fallen is left open. -/
structure Server.AlikeBut (c : ClientId) (s t : Server) : Prop where
  settings_eq : t.settings = s.settings
  soft_eq : t.soft = s.soft
  hard_eq : t.hard = s.hard
  waiting_eq : t.waiting = s.waiting
  nextId_eq : t.nextId = s.nextId
  store : s.store.AlikeBut c t.store
  /-- Without a release of the client's locks, the store is the same. -/
  store_eq : .released c ∉ t.journal → t.store = s.store
  /-- The connections of others, with their readers, are the same. -/
  connections_eq : t.connections.filter (·.id ≠ c) = s.connections.filter (·.id ≠ c)
  /-- No connection is new. -/
  holds_sublist :
    (t.connections.map Connection.hold).Sublist (s.connections.map Connection.hold)
  /-- The streams that are not the client's are the same. -/
  streams_eq : ∀ i, ⟨c, i⟩ ∉ s.ledger.accepted → t.stream? i = s.stream? i
  /-- Nothing is written to anybody. -/
  given_eq : t.streams.map Duplex.given = s.streams.map Duplex.given
  /-- The messages of others, and the client's own requests, are queued or in a hand as before. -/
  workers_eq : t.workers.map (Worker.besides c) = s.workers.map (Worker.besides c)
  events : ∃ events, t.journal = s.journal ++ events ∧ ∀ e ∈ events, e.Clears c

/-! ## The store -/

namespace Store

variable {c : ClientId} {s t u : Store}

theorem AlikeBut.refl (c : ClientId) (s : Store) : s.AlikeBut c s :=
  ⟨rfl, rfl, rfl, rfl, rfl, rfl, rfl⟩

theorem AlikeBut.trans (h : s.AlikeBut c t) (h' : t.AlikeBut c u) : s.AlikeBut c u where
  maxFiles_eq := h'.maxFiles_eq.trans h.maxFiles_eq
  maxBytes_eq := h'.maxBytes_eq.trans h.maxBytes_eq
  placement_eq := h'.placement_eq.trans h.placement_eq
  files_eq := h'.files_eq.trans h.files_eq
  chooser_eq := h'.chooser_eq.trans h.chooser_eq
  totals_eq := h'.totals_eq.trans h.totals_eq
  nextGeneration_eq := h'.nextGeneration_eq.trans h.nextGeneration_eq

theorem alikeBut_release (s : Store) (c : ClientId) : s.AlikeBut c (s.release c).2 :=
  { AlikeBut.refl c s with
    placement_eq := rfl
    files_eq := by simp [files_release, File.releasedBy_releasedBy] }

end Store

/-! ## The parts of a server -/

namespace Server

variable {c : ClientId} {s t u : Server}

theorem AlikeBut.refl (c : ClientId) (s : Server) : s.AlikeBut c s :=
  ⟨rfl, rfl, rfl, rfl, rfl, .refl c _, fun _ => rfl, rfl, .refl _, fun _ _ => rfl, rfl, rfl,
    [], (List.append_nil _).symm, by simp⟩

theorem AlikeBut.accepted_eq (h : s.AlikeBut c t) : t.ledger.accepted = s.ledger.accepted := by
  obtain ⟨events, hj, he⟩ := h.events
  have hnone : events.filterMap Event.accepted? = [] := by
    refine List.filterMap_eq_nil_iff.mpr fun e hm => ?_
    have hc := he e hm
    cases e <;> first | rfl | exact hc.elim
  change t.journal.filterMap _ = s.journal.filterMap _
  rw [hj, List.filterMap_append, hnone, List.append_nil]

theorem AlikeBut.trans (h : s.AlikeBut c t) (h' : t.AlikeBut c u) : s.AlikeBut c u where
  settings_eq := h'.settings_eq.trans h.settings_eq
  soft_eq := h'.soft_eq.trans h.soft_eq
  hard_eq := h'.hard_eq.trans h.hard_eq
  waiting_eq := h'.waiting_eq.trans h.waiting_eq
  nextId_eq := h'.nextId_eq.trans h.nextId_eq
  store := h.store.trans h'.store
  store_eq hn := by
    obtain ⟨events, hj, -⟩ := h'.events
    exact (h'.store_eq hn).trans (h.store_eq fun hm => hn (hj ▸ List.mem_append_left _ hm))
  connections_eq := h'.connections_eq.trans h.connections_eq
  holds_sublist := h'.holds_sublist.trans h.holds_sublist
  streams_eq i hi := (h'.streams_eq i (h.accepted_eq ▸ hi)).trans (h.streams_eq i hi)
  given_eq := h'.given_eq.trans h.given_eq
  workers_eq := h'.workers_eq.trans h.workers_eq
  events := by
    obtain ⟨first, hf, hcf⟩ := h.events
    obtain ⟨second, hs, hcs⟩ := h'.events
    refine ⟨first ++ second, by rw [hs, hf, List.append_assoc], ?_⟩
    exact fun e he => (List.mem_append.mp he).elim (hcf e) (hcs e)

/-- A stream of the client may change in what it has been read, hung up on and held. -/
theorem AlikeBut.onStream (h : s.AlikeBut c t) {i : StreamId} (hi : ⟨c, i⟩ ∈ s.ledger.accepted)
    {change : Duplex → Duplex} (hg : ∀ d, t.stream? i = some d → (change d).given = d.given) :
    s.AlikeBut c (t.onStream i change) :=
  h.trans { AlikeBut.refl c t with
    streams_eq := fun j hj => by
      have hne : i ≠ j := by
        rintro rfl
        exact hj (h.accepted_eq ▸ hi)
      exact List.getElem?_modify_ne _ _ hne
    given_eq := map_modify_eq hg }

/-- Messages of the client that ask for nothing may move from a worker's queue to its hand, and
away. -/
theorem AlikeBut.onWorker (h : s.AlikeBut c t) {w : Nat} {x y : Worker}
    (hw : t.workers[w]? = some x) (hb : y.besides c = x.besides c) :
    s.AlikeBut c (t.onWorker w fun _ => y) :=
  h.trans { AlikeBut.refl c t with
    workers_eq := map_modify_eq fun z hz => by rw [hb, Option.some.inj (hw.symm.trans hz)] }

theorem AlikeBut.note (h : s.AlikeBut c t) {e : Event} (he : e.Clears c) :
    s.AlikeBut c (t.note e) :=
  h.trans { AlikeBut.refl c t with
    store_eq := fun _ => rfl
    events := ⟨[e], rfl, by simpa using he⟩ }

theorem AlikeBut.withConnections (h : s.AlikeBut c t) {cs : List Connection}
    (hf : cs.filter (·.id ≠ c) = t.connections.filter (·.id ≠ c))
    (hh : (cs.map Connection.hold).Sublist (t.connections.map Connection.hold)) :
    s.AlikeBut c (t.withConnections cs) :=
  h.trans { AlikeBut.refl c t with connections_eq := hf, holds_sublist := hh }

theorem AlikeBut.dispatch (h : s.AlikeBut c t) (hw : 0 < t.workers.length) {m : Message}
    (hm : m.sender = c) (hv : m.Void) : s.AlikeBut c (t.dispatch m) := by
  obtain ⟨w, dice, -, he⟩ := dispatch_eq_post hw m
  have hpost : t.AlikeBut c ({ t with dice }.onWorker w fun x =>
      { x with queue := x.queue ++ [m] }) :=
    { AlikeBut.refl c t with
      workers_eq := map_modify_eq fun x _ => by simp [Worker.besides, hm, hv] }
  rw [he]
  exact (h.trans hpost).note ⟨hm, hv⟩

theorem AlikeBut.release (h : s.AlikeBut c t) : s.AlikeBut c (t.release c) :=
  h.trans { AlikeBut.refl c t with
    store := t.store.alikeBut_release c
    store_eq := fun hn => absurd (mem_note.mpr (.inr rfl)) hn
    events := ⟨[.released c], rfl, by simp [Event.Clears]⟩ }

/-- Putting a connection of the client in the place of another one shows nothing to the others. -/
theorem AlikeBut.set (h : s.AlikeBut c t) {k : Nat} {x y : Connection}
    (hk : t.connections[k]? = some x) (hx : x.id = c) (hh : y.hold = x.hold) :
    s.AlikeBut c (t.withConnections (t.connections.set k y)) := by
  have hid : y.id = c := (congrArg Hold.client hh).trans hx
  refine h.withConnections ?_ (map_set_eq hk hh ▸ .refl _)
  rw [filter_set hk] <;> simp [hid, hx]

/-! ## The receiver -/

/-- The payload that a read from a connection completes, if any. -/
def payloads (s : Server) (k : Connection) : List Bytes :=
  match s.stream? k.stream with
  | none => []
  | some d =>
    let bytes := (d.up.take k.reader.wanted).1
    if bytes.isEmpty then [] else FrameReader.completed (k.reader.offer bytes).1

theorem alikeBut_fall (s : Server) (c : ClientId) : s.AlikeBut c s.fall :=
  { AlikeBut.refl c s with store_eq := fun _ => rfl }

theorem alikeBut_offer (hw : 0 < s.workers.length) {k : Connection}
    (hk : k.hold ∈ s.ledger.accepted) {bytes : Bytes}
    (hg : ∀ payload ∈ FrameReader.completed (k.reader.offer bytes).1, Garbled payload) :
    s.AlikeBut k.id (s.offer k bytes).2 ∧ (s.offer k bytes).2.connections = s.connections := by
  unfold offer
  rcases ho : k.reader.offer bytes with ⟨fault | ⟨consumed, missing | payload⟩, reader⟩
  · cases fault with
    | tooLarge => exact ⟨.refl .., rfl⟩
    | overCapacity | overrun => exact ⟨s.alikeBut_fall k.id, rfl⟩
  · exact ⟨.refl .., rfl⟩
  · -- A payload is complete: the connection's hold is passed on with the message.
    have hhold : s.AlikeBut k.id (s.onStream k.stream Duplex.hold) :=
      (AlikeBut.refl ..).onStream hk fun _ _ => rfl
    refine ⟨hhold.dispatch hw rfl ?_, connections_dispatch ..⟩
    rintro _ ⟨⟩
    exact hg payload (ho ▸ List.mem_singleton_self payload)

theorem alikeBut_read (hw : 0 < s.workers.length) {k : Connection} (hk : k.hold ∈ s.ledger.accepted)
    (hg : ∀ payload ∈ s.payloads k, Garbled payload) :
    s.AlikeBut k.id (s.read k).2 ∧ (s.read k).2.connections = s.connections := by
  unfold payloads at hg
  unfold read
  cases hs : s.stream? k.stream with
  | none => exact ⟨.refl .., rfl⟩
  | some d =>
      have hup : s.AlikeBut k.id
          (s.onStream k.stream ({ · with up := (d.up.take k.reader.wanted).2 })) :=
        (AlikeBut.refl ..).onStream hk fun e he => by
          obtain rfl : d = e := Option.some.inj (hs.symm.trans he)
          rfl
      simp only [hs] at hg ⊢
      cases he : (d.up.take k.reader.wanted).1.isEmpty with
      | true => exact ⟨hup, rfl⟩
      | false =>
          simp only [he, Bool.false_eq_true, if_false] at hg ⊢
          obtain ⟨hoffer, hconn⟩ := alikeBut_offer
            (s := s.onStream k.stream ({ · with up := (d.up.take k.reader.wanted).2 })) hw hk hg
          exact ⟨hup.trans hoffer, hconn⟩

theorem alikeBut_readAt (hw : 0 < s.workers.length) {k : Nat} {x : Connection}
    (hk : s.connections[k]? = some x) (hx : x.hold ∈ s.ledger.accepted)
    (hg : ∀ payload ∈ s.payloads x, Garbled payload) : s.AlikeBut x.id (s.readAt k) := by
  obtain ⟨hread, hconn⟩ := alikeBut_read hw hx hg
  have hhold := (s.read_cases x).1
  unfold readAt
  rw [hk]
  simp only
  split
  · have hset := hread.set (hconn ▸ hk) rfl hhold
    rw [hconn] at hset
    exact hset
  · exact .refl ..

/-- A read that makes the receiver fall completes nothing. -/
theorem payloads_of_fall (hf : s.fallen = none) {k : Connection} (h : (s.read k).2.fallen ≠ none) :
    s.payloads k = [] := by
  unfold payloads
  unfold read at h
  cases hs : s.stream? k.stream with
  | none => rfl
  | some d =>
      simp only [hs] at h ⊢
      cases he : (d.up.take k.reader.wanted).1.isEmpty with
      | true => rfl
      | false =>
          simp only [he, Bool.false_eq_true, if_false] at h ⊢
          unfold offer at h
          rcases ho : k.reader.offer (d.up.take k.reader.wanted).1 with
            ⟨fault | ⟨consumed, missing | payload⟩, reader⟩
          · rfl
          · rfl
          · simp only [ho, fallen_dispatch] at h
            exact absurd hf h

theorem exists_of_fall (hf : s.fallen = none) {k : Nat} (h : (s.readAt k).fallen ≠ none) :
    ∃ x, s.connections[k]? = some x ∧ s.payloads x = [] := by
  unfold readAt at h
  cases hk : s.connections[k]? with
  | none => exact absurd hf (by simpa [hk] using h)
  | some x =>
      simp only [hk] at h
      split at h
      · exact ⟨x, rfl, payloads_of_fall hf h⟩
      · exact absurd hf h

/-- A connection that is ready and finds nothing to read has come to its end. -/
theorem dead_readAt {k : Nat} {x : Connection} {d : Duplex} (hk : s.connections[k]? = some x)
    (hs : s.stream? x.stream = some d) (hr : d.readable = true) (hu : d.up.unread = []) :
    ((s.readAt k).connections[k]?).any (·.dead) = true := by
  have hready : s.ready x = true := by simp [ready, hs, hr]
  have hlt := (List.getElem?_eq_some_iff.mp hk).1
  unfold readAt
  rw [hk]
  cases hd : x.dead with
  | true => simp [hd, hk]
  | false => simp [hd, hready, read, hs, Pipe.take, hu, hlt]

theorem alikeBut_killAt {k : Nat} {x : Connection} (hk : s.connections[k]? = some x) :
    s.AlikeBut x.id (s.killAt k) := by
  have hkill : s.killAt k = s.withConnections (s.connections.set k { x with dead := true }) := by
    rw [killAt, List.modify_eq_set_getElem?, hk]
    rfl
  rw [hkill]
  exact (AlikeBut.refl ..).set hk rfl rfl

theorem alikeBut_reapAt (hw : 0 < s.workers.length) {k : Nat} {x : Connection}
    (hk : s.connections[k]? = some x) : s.AlikeBut x.id (s.reapAt k) := by
  unfold reapAt
  rw [hk]
  simp only
  split
  · have herase : s.AlikeBut x.id (s.withConnections (s.connections.eraseIdx k)) :=
      (AlikeBut.refl ..).withConnections (filter_eraseIdx hk (by simp))
        ((List.eraseIdx_sublist ..).map _)
    have hnote := herase.note (e := .reaped x.id) rfl
    refine hnote.dispatch hw rfl ?_
    rintro _ ⟨⟩
  · exact .refl ..

/-- What the receiver does unless it has fallen. -/
theorem alikeBut_receiving (act : Server → Server) (h : s.AlikeBut c (act s)) :
    s.AlikeBut c (s.receiving act) :=
  receiving_ind (P := fun t => s.AlikeBut c t) (.refl ..) fun _ => h

theorem fallen_receiving (act : Server → Server) (h : (act s).fallen = s.fallen) :
    (s.receiving act).fallen = s.fallen :=
  receiving_ind (P := fun t => t.fallen = s.fallen) rfl fun _ => h

theorem fallen_reapAt (s : Server) (k : Nat) : (s.reapAt k).fallen = s.fallen := by
  unfold reapAt
  cases s.connections[k]? with
  | none => rfl
  | some c =>
      simp only
      split
      · exact fallen_dispatch ..
      · rfl

/-! ## The workers -/

theorem fallen_look (s : Server) (w : Nat) : (s.look w).2.fallen = s.fallen := by
  unfold look pull?
  split
  · rfl
  · rcases s.workers[w]? with _ | ⟨_ | ⟨m, queue⟩, _ | m' | m'⟩ <;> rfl

theorem fallen_apply (s : Server) (w : Nat) : (s.apply w).fallen = s.fallen := by
  have hanswer : ∀ m payload, (s.answer m payload).fallen = s.fallen := by
    intro m payload
    unfold answer
    cases Request.decode payload with
    | error why => rfl
    | ok request =>
        simp only
        split <;> rfl
  unfold apply
  split
  · rename_i queue m hw
    cases m.work with
    | request payload => exact hanswer m payload
    | hangUp => rfl
  · rfl

theorem fallen_letGo (s : Server) (w : Nat) : (s.letGo w).2.fallen = s.fallen := by
  unfold letGo
  rcases s.workers[w]? with _ | ⟨queue, _ | m | m⟩ <;> rfl

theorem alikeBut_look {w : Nat} {m : Message} {queue : List Message} {hand : Hand}
    (hw : s.workers[w]? = some ⟨m :: queue, hand⟩) (hv : m.Void) :
    s.AlikeBut m.sender (s.look w).2 := by
  unfold look pull?
  rw [hw]
  cases s.hard with
  | true => exact .refl ..
  | false =>
      cases hand with
      | idle => exact (AlikeBut.refl ..).onWorker hw (by simp [Worker.besides, Hand.besides, hv])
      | serving | served => exact .refl ..

theorem alikeBut_apply {w : Nat} {m : Message} {queue : List Message} {hand : Hand}
    (hw : s.workers[w]? = some ⟨queue, hand⟩) (hh : hand.messages.head? = some m)
    (ha : m.hold ∈ s.ledger.accepted) (hv : m.Void) : s.AlikeBut m.sender (s.apply w) := by
  unfold apply
  rw [hw]
  cases hand with
  | idle | served => exact .refl ..
  | serving n =>
      obtain rfl : n = m := by simpa [Hand.messages] using hh
      cases hk : n.work with
      | hangUp =>
          simp only [hk]
          exact (AlikeBut.refl ..).onWorker hw (by simp [Worker.besides, Hand.besides, hv])
      | request payload =>
          obtain ⟨why, hdecode⟩ := hv payload hk
          simp only [hk, answer, hdecode]
          have hup : s.AlikeBut n.sender (s.onStream n.stream Duplex.hangUp) :=
            (AlikeBut.refl ..).onStream ha fun _ _ => rfl
          have hnote := hup.note (e := .rejected n why) rfl
          exact hnote.onWorker hw (by simp [Worker.besides, Hand.besides, hv])

theorem alikeBut_letGo {w : Nat} {m : Message} {queue : List Message} {hand : Hand}
    (hw : s.workers[w]? = some ⟨queue, hand⟩) (hh : hand.messages.head? = some m)
    (ha : m.hold ∈ s.ledger.accepted) (hv : m.Void) :
    s.AlikeBut m.sender (s.letGo w).2 ∧ ∀ d ∈ (s.letGo w).1, d = m.sender := by
  unfold letGo
  rw [hw]
  cases hand with
  | idle | serving => exact ⟨.refl .., by simp⟩
  | served n =>
      obtain rfl : n = m := by simpa [Hand.messages] using hh
      have hdrop : s.AlikeBut n.sender (s.onStream n.stream Duplex.drop) :=
        (AlikeBut.refl ..).onStream ha fun _ _ => rfl
      refine ⟨hdrop.onWorker hw (by simp [Worker.besides, Hand.besides, hv]), ?_⟩
      simp only
      split <;> simp [eq_comm]

end Server

/-! ## Who is hung up on -/

namespace Ledger

variable {L L' : Ledger} {a : Action}

/-- Streams on which a payload came that was no request have been hung up on. -/
def Rebuffed (L : Ledger) : Prop :=
  ∀ m, (m, none) ∈ L.answered → (L.traffic m.stream).hungUp = true

theorem hungUp_onStream {i j : StreamId} {f : Traffic → Traffic}
    (hf : ∀ l, l.hungUp = true → (f l).hungUp = true) (h : (L.traffic i).hungUp = true) :
    ((L.onStream j f).traffic i).hungUp = true := by
  rcases L.traffic_onStream j i f with ht | ⟨-, ht⟩
  · rw [ht, h]
  · rw [ht, hf _ h]

/-- Whoever has been hung up on stays so. -/
theorem Step.hungUp (hs : L.Step a L') {i : StreamId} (h : (L.traffic i).hungUp = true) :
    (L'.traffic i).hungUp = true := by
  cases hs with
  | mark | stop | connect | turnAway | accept | reap | pull | heed | letGo => exact h
  | @sever traffic htraffic =>
      change (traffic i).hungUp = true
      rcases htraffic i with ht | ⟨-, ht⟩
      · rw [ht, h]
      · rw [ht, Traffic.hangUp]
  | close => exact hungUp_onStream (f := Traffic.close) (fun _ => id) h
  | cutOff => exact hungUp_onStream (f := Traffic.hangUp) (fun _ _ => rfl) h
  | @send j bytes =>
      exact hungUp_onStream (f := fun l => { l with up := l.up.send bytes }) (fun _ => id) h
  | @read k w c bytes up => exact hungUp_onStream (f := ({ · with up })) (fun _ => id) h
  | @answer w m queue payload response =>
      refine hungUp_onStream (f := Traffic.answer response) (fun l hl => ?_) h
      rcases l.answer_cases response with he | he | ⟨-, bytes, he⟩
      · rw [he, hl]
      · rw [he, Traffic.hangUp]
      · rw [he, hl]

theorem Rebuffed.step (h : L.Rebuffed) (hk : L.Kept) (hh : L.Held) (hs : L.Step a L') :
    L'.Rebuffed := by
  intro m hm
  -- Only a payload that is no request goes without a response.
  have hnew : (m, none) ∈ L.answered ∨ (L'.traffic m.stream).hungUp = true := by
    cases hs with
    | @answer w n queue payload response hw =>
        rcases List.mem_append.mp hm with hm | hm
        · exact .inl hm
        · obtain ⟨rfl, rfl⟩ := Prod.mk.inj (List.mem_singleton.mp hm)
          have hn : m.hold ∈ L.accepted := hh.in_hand hw (List.mem_singleton_self m)
          have ht := hk.traffic_answer_own hn none
          exact .inr (congrArg Traffic.hungUp ht)
    | mark | stop | sever | close | cutOff | connect | send | turnAway | accept | read | reap | pull
    | heed | letGo => exact .inl hm
  exact hnew.elim (fun hm => hs.hungUp (h m hm)) id

end Ledger

namespace Scene

variable {r t : Scene} {c : ClientId} {a : Action}

/-- Whether an action is taken for bytes of a client that form no request, or for what came of
them, and the receiver does not fall in it. -/
def Malformed (r : Scene) (c : ClientId) : Action → Prop
  | .read k => ∃ x ∈ r.server.connections[k]?, x.id = c ∧
      (∀ payload ∈ r.server.payloads x, Garbled payload) ∧
        (r.step (.read k)).server.fallen = r.server.fallen
  | .failRead k | .reap k => ∃ x ∈ r.server.connections[k]?, x.id = c
  | .pull w => ∃ m ∈ r.server.workers[w]?.bind (·.queue.head?), m.sender = c ∧ m.Void
  | .apply w | .letGo w =>
      ∃ m ∈ r.server.workers[w]?.bind (·.hand.messages.head?), m.sender = c ∧ m.Void
  | .release k => r.leaving[k]? = some c
  | _ => False

instance (r : Scene) (c : ClientId) : ∀ a, Decidable (r.Malformed c a)
  | .read _ | .failRead _ | .reap _ | .pull _ | .apply _ | .letGo _ =>
      inferInstanceAs (Decidable (∃ x ∈ _, _))
  | .release _ => inferInstanceAs (Decidable (_ = _))
  | .connect | .send .. | .halfClose _ | .close _ | .receive _ | .closeDoor | .stopAll | .accept
  | .sever | .forsake | .failSetup | .failWrite _ => isFalse id

/-- Whether all actions, one after the other, are taken for malformed input of a client. -/
def Spoils (c : ClientId) : Scene → List Action → Prop
  | _, [] => True
  | r, a :: actions => r.Malformed c a ∧ Spoils c (r.step a) actions

/-- What holds between any two actions of a run. -/
structure Valid (r : Scene) : Prop where
  kept : r.server.ledger.Kept
  held : r.server.ledger.Held
  rebuffed : r.server.ledger.Rebuffed
  sound : r.server.Sound r.leaving

theorem Valid.step (h : r.Valid) (a : Action) : (r.step a).Valid where
  kept := h.kept.step (r.step_ledger a)
  held := h.held.step h.kept (r.step_ledger a)
  rebuffed := h.rebuffed.step h.kept h.held (r.step_ledger a)
  sound := sound_step h.sound a

theorem Valid.run (h : r.Valid) (actions : List Action) : (r.run actions).Valid := by
  induction actions generalizing r with
  | nil => exact h
  | cons a actions ih => exact ih (h.step a)

/-- A scene before and after malformed input of a client. -/
structure Contained (c : ClientId) (r t : Scene) : Prop where
  server : r.server.AlikeBut c t.server
  fallen_eq : t.server.fallen = r.server.fallen
  leaving_eq : t.leaving.filter (· ≠ c) = r.leaving.filter (· ≠ c)

theorem Contained.refl (c : ClientId) (r : Scene) : r.Contained c r :=
  ⟨.refl .., rfl, rfl⟩

theorem Contained.trans {u : Scene} (h : r.Contained c t) (h' : t.Contained c u) :
    r.Contained c u :=
  ⟨h.server.trans h'.server, h'.fallen_eq.trans h.fallen_eq, h'.leaving_eq.trans h.leaving_eq⟩

/-- Every step taken for malformed input of a client leaves the others alone. -/
theorem contained_step (h : r.Valid) (ha : r.Malformed c a) : r.Contained c (r.step a) := by
  have hin {k : Nat} {x : Connection} (hk : r.server.connections[k]? = some x) :
      x.hold ∈ r.server.ledger.accepted :=
    h.kept.connection_accepted x (List.mem_of_getElem? hk)
  have hw := h.sound.staffed
  cases a with
  | read k =>
      obtain ⟨x, hk, rfl, hg, hf⟩ := ha
      exact ⟨Server.alikeBut_receiving (·.readAt k) (Server.alikeBut_readAt hw hk (hin hk) hg), hf,
        rfl⟩
  | failRead k =>
      obtain ⟨x, hk, rfl⟩ := ha
      exact ⟨Server.alikeBut_receiving (·.killAt k) (Server.alikeBut_killAt hk),
        Server.fallen_receiving (·.killAt k) rfl, rfl⟩
  | reap k =>
      obtain ⟨x, hk, rfl⟩ := ha
      exact ⟨Server.alikeBut_receiving (·.reapAt k) (Server.alikeBut_reapAt hw hk),
        Server.fallen_receiving (·.reapAt k) (r.server.fallen_reapAt k), rfl⟩
  | pull w =>
      obtain ⟨m, hm, rfl, hvoid⟩ := ha
      obtain ⟨⟨queue, hand⟩, hv, hq⟩ := Option.bind_eq_some_iff.mp hm
      obtain ⟨rest, rfl⟩ := List.head?_eq_some_iff.mp hq
      exact ⟨Server.alikeBut_look hv hvoid, r.server.fallen_look w, rfl⟩
  | apply w =>
      obtain ⟨m, hm, rfl, hvoid⟩ := ha
      obtain ⟨⟨queue, hand⟩, hv, hh⟩ := Option.bind_eq_some_iff.mp hm
      have hacc := h.held.in_hand hv (List.mem_of_head? hh)
      exact ⟨Server.alikeBut_apply hv hh hacc hvoid, r.server.fallen_apply w, rfl⟩
  | letGo w =>
      obtain ⟨m, hm, rfl, hvoid⟩ := ha
      obtain ⟨⟨queue, hand⟩, hv, hh⟩ := Option.bind_eq_some_iff.mp hm
      have hacc := h.held.in_hand hv (List.mem_of_head? hh)
      obtain ⟨halike, hleaves⟩ := Server.alikeBut_letGo hv hh hacc hvoid
      have hnone : (r.server.letGo w).1.toList.filter (· ≠ m.sender) = [] :=
        List.filter_eq_nil_iff.mpr fun d hd => by simp [hleaves d (Option.mem_toList.mp hd)]
      refine ⟨halike, r.server.fallen_letGo w, ?_⟩
      change (r.leaving ++ (r.server.letGo w).1.toList).filter _ = _
      rw [List.filter_append, hnone, List.append_nil]
  | release k =>
      have hk : r.leaving[k]? = some c := ha
      simp only [step, hk]
      exact ⟨(Server.AlikeBut.refl ..).release, rfl, filter_eraseIdx hk (by simp)⟩
  | connect | send | halfClose | close | receive | closeDoor | stopAll | accept | sever | forsake
  | failSetup | failWrite => exact ha.elim

theorem contained_run (h : r.Valid) {steps : List Action} (hs : Spoils c r steps) :
    r.Contained c (r.run steps) := by
  induction steps generalizing r with
  | nil => exact .refl c r
  | cons a steps ih => exact (contained_step h hs.1).trans (ih (h.step a) hs.2)

/-- What becomes of a client that sends malformed input. -/
structure Settled (c : ClientId) (t : Scene) : Prop where
  /-- A length that no frame may have has been read: the connection is as good as dropped, unless
  the length was within the limit and has made the receiver fall. -/
  refused : ∀ k ∈ t.server.connections, k.id = c →
    ∀ e ∈ (t.server.ledger.frames (t.server.ledger.bytesRead k.stream)).fault,
      k.dead = true ∨ e.panics = true ∧ t.server.fallen ≠ none
  /-- So it is once the end of the stream is read, in the middle of a frame or not. -/
  ended : t.server.fallen = none → ∀ k x d, t.server.connections[k]? = some x → x.id = c →
    t.server.stream? x.stream = some d → d.readable = true → d.up.unread = [] →
      ((t.step (.read k)).server.connections[k]?).any (·.dead) = true
  /-- A payload was no request: the client has been hung up on. -/
  rejected : ∀ m why, .rejected m why ∈ t.server.journal → m.sender = c →
    ∃ d, t.server.stream? m.stream = some d ∧ d.hungUp = true
  /-- One hang-up is posted, when the connection is reaped. -/
  hangUps : ∀ h ∈ t.server.ledger.accepted, h.client = c →
    (t.server.ledger.posts c).countP (·.work = .hangUp) =
      if c ∈ t.server.connections.map Connection.id then 0 else 1
  /-- Locks are released after the last message only. -/
  released : .released c ∈ t.server.journal → ¬ t.server.Busy c
  unlocked : ∀ h ∈ t.server.ledger.accepted, h.client = c → c ∉ t.server.lost →
    ¬ t.server.Busy c → c ∉ t.leaving → ∀ f ∈ t.server.store.files, f.lockOwner ≠ some c

theorem countP_hangUp_requests (h : Hold) (limit : Nat) (bytes : Bytes) :
    (h.requests limit bytes).countP (·.work = .hangUp) = 0 := by
  refine List.countP_eq_zero.mpr fun m hm => ?_
  obtain ⟨payload, -, rfl⟩ := List.mem_map.mp hm
  simp [Hold.request]

theorem Valid.settled (h : t.Valid) (c : ClientId) : t.Settled c where
  refused k hk _ e he := by
    refine or_iff_not_imp_left.mpr fun hd => ?_
    obtain ⟨parsed, hpanics, hp⟩ := h.kept.following k hk (by simpa using hd)
    obtain ⟨hpanic, hf⟩ := hpanics e ((congrArg Parsed.fault hp.eq_parse).trans he)
    exact ⟨hpanic, Option.isSome_iff_ne_none.mp hf⟩
  ended hf k x d hk _ hs hr hu := by
    simp only [Scene.step, Server.receiving_of_standing hf]
    exact Server.dead_readAt hk hs hr hu
  rejected m why hm _ := by
    have hup := h.rebuffed m (List.mem_filterMap.mpr ⟨_, hm, rfl⟩)
    cases hs : t.server.stream? m.stream with
    | none => simp [Server.ledger, hs] at hup
    | some d => exact ⟨d, rfl, by simpa [Server.ledger, hs, Duplex.traffic] using hup⟩
  hangUps x hx hc := by
    subst hc
    rw [h.kept.posts_eq_requests hx, List.countP_append, countP_hangUp_requests, Nat.zero_add]
    change _ = if x.client ∈ t.server.ledger.connections.map Connection.id then 0 else 1
    split <;> rfl
  released hr hb := by
    have hzero := (h.sound.busy c hb).1
    exact Nat.ne_of_gt (List.countP_pos_iff.mpr ⟨_, hr, by simp [Event.releases]⟩) hzero
  unlocked x hx hc hlost hb hl := by
    subst hc
    have hone := (h.sound.gone x.client (h.kept.client_lt hx) hb).resolve_right fun hd => hlost hd.1
    rw [List.count_eq_zero.mpr hl] at hone
    exact h.sound.lockOwner_ne (by omega)

theorem valid_start (settings : Settings) (maxFiles maxBytes : UInt64) (placement : Placement)
    (policy : Policy) (storeDice dice : Dice) {workers : Nat} (hw : 0 < workers) :
    (start settings (.empty maxFiles maxBytes placement policy storeDice) workers dice).Valid where
  kept := Ledger.kept_start settings workers
  held := by
    refine ⟨fun w x hx m hm => ?_, by simp [ledger_start, Ledger.start]⟩
    obtain rfl : x = {} := List.eq_of_mem_replicate (List.mem_of_getElem? hx)
    simp [Worker.messages, Hand.messages] at hm
  rebuffed m hm := absurd hm List.not_mem_nil
  sound := Server.sound_start settings maxFiles maxBytes placement policy storeDice dice hw

/-! ## The fall of the receiver -/

end Scene

namespace Server

variable {s : Server}

theorem held_forsakeNext (h : s.fallen ≠ none) :
    s.forsakeNext.held = s.held.tail ∧ s.forsakeNext.fallen ≠ none := by
  obtain ⟨n, hf⟩ := Option.ne_none_iff_exists'.mp h
  cases hc : s.connections[n]? with
  | none =>
      have hstay : s.forsakeNext = s := by simp only [forsakeNext, hf, hc]
      have hnil : s.held = [] := by
        rw [held, hf]
        exact List.drop_eq_nil_of_le (List.getElem?_eq_none_iff.mp hc)
      rw [hstay, hnil]
      exact ⟨rfl, h⟩
  | some c => simp [forsakeNext, held, hf, hc, onStream]

theorem held_forsakes {α : Type} (h : s.fallen ≠ none) (xs : List α) :
    (xs.foldl (fun s _ => s.forsakeNext) s).held = s.held.drop xs.length := by
  induction xs generalizing s with
  | nil => rfl
  | cons x xs ih =>
      obtain ⟨hheld, hfallen⟩ := held_forsakeNext h
      rw [List.foldl_cons, ih hfallen, hheld, List.drop_tail, List.length_cons]

theorem held_turnAways {α : Type} (s : Server) (xs : List α) :
    (xs.foldl (fun s _ => s.turnAway) s).held = s.held ∧
      (xs.foldl (fun s _ => s.turnAway) s).fallen = s.fallen := by
  apply List.foldlRecOn (motive := fun t : Server => t.held = s.held ∧ t.fallen = s.fallen)
  · exact ⟨rfl, rfl⟩
  · intro t ht _ _
    unfold turnAway
    split <;> exact ht

/-- A receiver that has fallen holds no connection in the end. -/
theorem held_forsakeAll (h : s.fallen ≠ none) : s.forsakeAll.held = [] := by
  obtain ⟨hheld, hfallen⟩ := s.held_turnAways s.waiting
  rw [forsakeAll, held_forsakes (hfallen ▸ h), hheld]
  exact List.drop_eq_nil_of_le (List.length_drop ▸ Nat.sub_le ..)

end Server

namespace Scene

variable {c : ClientId} {r t : Scene}

/-- A scene before and after a read from the `k`-th connection in which the receiver falls. -/
structure Felled (k : Nat) (r t : Scene) : Prop where
  /-- Its client has declared a length that the limit allows and no buffer can hold. Nothing has
  changed that is not the client's. -/
  cause : ∃ x ∈ r.server.connections[k]?, r.server.AlikeBut x.id t.server ∧
    ∃ declared, Bytes.maxSize < declared ∧ declared ≤ r.server.settings.maxMessage ∧
      (t.server.ledger.frames (t.server.ledger.bytesRead x.stream)).fault =
        some (.overCapacity declared)
  leaving_eq : t.leaving = r.leaving
  /-- From then on nothing is read and nothing posted. -/
  silent : ∀ later, (t.run later).server.ledger.bytesRead = t.server.ledger.bytesRead ∧
    (t.run later).server.ledger.posted = t.server.ledger.posted
  /-- Whenever the receiver has come to the end of what it still does, it holds no connection. -/
  forsaken : ∀ later, ((t.run later).run (t.run later).server.forsaking).server.held = []

theorem Valid.felled (h : r.Valid) {k : Nat} (hf : r.server.fallen = none)
    (hfell : (r.step (.read k)).server.fallen ≠ none) : r.Felled k (r.step (.read k)) where
  cause := by
    obtain ⟨k', x, declared, ha, hk, hover⟩ := h.kept.over_of_step (r.step_ledger (.read k))
      (by simp [Server.ledger, hf]) (Option.isSome_iff_ne_none.mpr hfell)
    obtain rfl : k = k' := Action.read.inj ha
    have hread : (r.step (.read k)).server = r.server.readAt k := by
      simp only [Scene.step, Server.receiving_of_standing hf]
    rw [hread] at hfell
    obtain ⟨y, hy, hnone⟩ := Server.exists_of_fall hf hfell
    obtain rfl : x = y := Option.some.inj (hk.symm.trans hy)
    have hacc := h.kept.connection_accepted x (List.mem_of_getElem? hk)
    refine ⟨x, hk, ?_, declared, hover⟩
    rw [hread]
    exact Server.alikeBut_readAt h.sound.staffed hk hacc (by simp [hnone])
  leaving_eq := rfl
  silent later := (run_of_fallen (h.step _).kept (Option.isSome_iff_ne_none.mpr hfell) later).2
  forsaken later := by
    obtain ⟨hfallen, -, -⟩ :=
      run_of_fallen (h.step _).kept (Option.isSome_iff_ne_none.mpr hfell) later
    rw [Server.run_forsaking]
    exact Server.held_forsakeAll (Option.isSome_iff_ne_none.mp hfallen)

/-- In every run, whatever the workers, the selection of them and what other clients are in the
middle of: the steps taken for bytes of a client that form no request, or for what came of them,
change nothing that is not the client's, nor the requests that it made before. The store stays as
it is but for the client's own locks, and these go with a release only. What is noted is that
messages of the client which ask for nothing are posted and rejected, and that it is reaped and
released. The client is hung up on or its connection dies, one hang-up is posted when that is
reaped, and after its last message its locks are released. A read in which the receiver falls is
none of these steps. It changes nothing that is not the client's either, but after it the receiver
only lets go of its clients; with a limit that a buffer can hold there is no such read. -/
theorem malformed_contained (settings : Settings) (maxFiles maxBytes : UInt64)
    (placement : Placement) (policy : Policy) (storeDice dice : Dice) (workers : Nat)
    (hw : 0 < workers) (before steps : List Action) (c : ClientId) :
    let store := Store.empty maxFiles maxBytes placement policy storeDice
    let r := (start settings store workers dice).run before
    (r.Spoils c steps → r.Contained c (r.run steps) ∧ (r.run steps).Settled c) ∧
      (∀ k, r.server.fallen = none → (r.step (.read k)).server.fallen ≠ none →
        r.Felled k (r.step (.read k))) ∧
      (settings.maxMessage ≤ Bytes.maxSize → r.server.fallen = none) := by
  intro store r
  have hvalid : r.Valid :=
    (valid_start settings maxFiles maxBytes placement policy storeDice dice hw).run before
  exact ⟨fun hs => ⟨contained_run hvalid hs, (hvalid.run steps).settled c⟩,
    fun _ hf hfell => hvalid.felled hf hfell, fun hl => fallen_run hl store workers dice before⟩

/-- A run in which two clients create locked files. Then the one sends a payload that is no request,
and the other one the start of a frame. -/
def halfway : Scene :=
  (start {} (.empty 2 9 .single .fifo ⟨fun _ => 0, 0⟩) 2 ⟨id, 0⟩).run
    [.connect, .connect, .accept, .accept, .send 0 (Frame.encode [5, 97] ++ Frame.encode [250]),
      .send 1 (Frame.encode [5, 98] ++ [0, 0, 0]), .read 0, .read 1, .read 0, .read 1, .pull 0,
      .pull 1, .apply 0, .apply 1, .letGo 0, .letGo 1, .read 1]

/-- What is done about the payload that is no request, until its client has gone. -/
def cleaning : List Action :=
  [.read 0, .read 0, .pull 0, .apply 0, .letGo 0, .read 0, .reap 0, .pull 0, .apply 0, .letGo 0,
    .release 0]

/-- A server with the highest limit there is, and two clients. The one has sent a header that
declares more than a buffer can hold, and ended its stream there; the other one has sent a
request. -/
def overfull : Scene :=
  (start { maxMessage := 2 ^ 64 - 1 } (.empty 2 9 .single .fifo ⟨fun _ => 0, 0⟩) 2 ⟨id, 0⟩).run
    [.connect, .connect, .accept, .accept, .send 0 (List.replicate 8 255), .halfClose 0,
      .send 1 (Frame.encode [5, 98])]

/-- In the first run the client is done with; in the second one its header makes the receiver
fall. -/
theorem malformed_contained_half_frame :
    0 < 2 ∧ halfway.Spoils ⟨0⟩ cleaning ∧ halfway.Contained ⟨0⟩ (halfway.run cleaning) ∧
      (halfway.run cleaning).Settled ⟨0⟩ ∧
      (halfway.run cleaning).server.store.files.map File.lockOwner = [none, some ⟨1⟩] ∧
      halfway.server.fallen = none ∧ overfull.Felled 0 (overfull.step (.read 0)) := by
  have hs : halfway.Spoils ⟨0⟩ cleaning := by
    simp only [cleaning, Spoils, and_true]
    decide +kernel
  obtain ⟨hcontained, hsettled⟩ := (malformed_contained {} 2 9 .single .fifo ⟨fun _ => 0, 0⟩ ⟨id, 0⟩
    2 (by decide) _ cleaning ⟨0⟩).1 hs
  have hstands : halfway.server.fallen = none := (malformed_contained {} 2 9 .single .fifo
    ⟨fun _ => 0, 0⟩ ⟨id, 0⟩ 2 (by decide) _ [] ⟨0⟩).2.2 (by decide)
  have hfelled : overfull.Felled 0 (overfull.step (.read 0)) :=
    (malformed_contained { maxMessage := 2 ^ 64 - 1 } 2 9 .single .fifo ⟨fun _ => 0, 0⟩ ⟨id, 0⟩ 2
      (by decide) _ [] ⟨0⟩).2.1 0 (by decide +kernel) (by decide +kernel)
  exact ⟨by decide, hs, hcontained, hsettled, by decide +kernel, hstands, hfelled⟩

/-- The header is within the limit, so it is a frame cut short. Yet the poll that reads it takes
both connections away and posts nothing, neither the request nor a hang-up. -/
theorem poll_drops_other_connections :
    Frame.parse (Frame.excess? (2 ^ 64 - 1)) (overfull.server.ledger.bytesSent 0) =
        { absorbed := 8 } ∧
      overfull.server.held.map Connection.id = [⟨0⟩, ⟨1⟩] ∧
      (overfull.server.stream? 1).map Duplex.downEnded = some false ∧
      overfull.server.poll.held = [] ∧
      (overfull.server.poll.stream? 1).map Duplex.downEnded = some true ∧
      overfull.server.poll.ledger.posted = [] := by
  have hsent : overfull.server.ledger.bytesSent 0 = List.replicate 8 255 := by decide +kernel
  have hcut : Frame.parse (Frame.excess? (2 ^ 64 - 1)) (List.replicate 8 255) =
      { absorbed := 8 } := by
    rw [Frame.parse]
    decide +kernel
  rw [hsent]
  refine ⟨hcut, ?_, ?_, ?_, ?_, ?_⟩ <;> decide +kernel

end Scene

end FileDepot
