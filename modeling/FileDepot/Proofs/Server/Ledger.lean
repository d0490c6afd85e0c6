import FileDepot.Proofs.Frame.Growth
import FileDepot.Proofs.Server.Holds

/-! # The ledger of a server

What the receiver and the workers have done, without the store: the connections accepted, the
messages posted, the payloads answered, and for each stream what has been read of it and written to
it. Each action of a run changes the ledger in one of a few ways. -/

namespace FileDepot

/-! ## What is written down -/

namespace Event

/-- The connection that an event accepts. -/
def accepted? : Event → Option Hold
  | .accepted id stream => some ⟨id, stream⟩
  | _ => none

/-- The message that an event posts, and the worker that gets it. -/
def posted? : Event → Option (Nat × Message)
  | .posted worker m => some (worker, m)
  | _ => none

/-- The message that an event answers, and the response unless the payload was no request. -/
def answered? : Event → Option (Message × Option Bytes)
  | .applied m _ response => some (m, some response)
  | .rejected m _ => some (m, none)
  | _ => none

end Event

/-- The bytes taken so far. -/
def Pipe.past (p : Pipe) : Bytes :=
  p.bytes.take p.taken

/-- What counts of a stream: what the client sends, what it has been sent, and whether the two ends
are open. -/
structure Traffic where
  up : Pipe := {}
  down : Bytes := []
  clientOpen : Bool := true
  hungUp : Bool := false

namespace Traffic

/-- Whether more can be sent to the client. -/
def live (l : Traffic) : Bool :=
  l.clientOpen && !l.hungUp

def close (l : Traffic) : Traffic :=
  { l with clientOpen := false }

def hangUp (l : Traffic) : Traffic :=
  { l with hungUp := true }

/-- The client is sent a response, or hung up on where that is not possible or there is none. -/
def answer (response : Option Bytes) (l : Traffic) : Traffic :=
  match response with
  | none => l.hangUp
  | some bytes =>
    if bytes.isEmpty then l
    else if l.live then { l with down := l.down ++ bytes } else l.hangUp

variable {l : Traffic}

theorem live_hangUp (l : Traffic) : l.hangUp.live = false := by
  simp [hangUp, live]

theorem answer_nil : answer (some []) = id :=
  rfl

theorem answer_some (h : l.live = true) (bytes : Bytes) :
    l.answer (some bytes) = { l with down := l.down ++ bytes } := by
  unfold answer
  simp only [h, if_true]
  split
  · rename_i he
    rw [List.isEmpty_iff.mp he, List.append_nil]
  · rfl

theorem answer_cases (response : Option Bytes) (l : Traffic) : l.answer response = l ∨
    l.answer response = l.hangUp ∨
      l.live = true ∧ ∃ bytes, l.answer response = { l with down := l.down ++ bytes } := by
  unfold answer
  cases response with
  | none => exact .inr (.inl rfl)
  | some bytes =>
      simp only
      split
      · exact .inl rfl
      · split
        · rename_i hl
          exact .inr (.inr ⟨hl, bytes, rfl⟩)
        · exact .inr (.inl rfl)

theorem up_answer (response : Option Bytes) (l : Traffic) : (l.answer response).up = l.up := by
  rcases l.answer_cases response with h | h | ⟨-, bytes, h⟩ <;> rw [h]
  rfl

theorem clientOpen_answer (response : Option Bytes) (l : Traffic) :
    (l.answer response).clientOpen = l.clientOpen := by
  rcases l.answer_cases response with h | h | ⟨-, bytes, h⟩ <;> rw [h]
  rfl

/-- A client that cannot be sent more is not. -/
theorem answer_of_not_live (h : l.live = false) (response : Option Bytes) :
    (l.answer response).down = l.down ∧ (l.answer response).live = false := by
  rcases l.answer_cases response with ha | ha | ⟨hl, -⟩
  · rw [ha]
    exact ⟨rfl, h⟩
  · rw [ha]
    exact ⟨rfl, live_hangUp l⟩
  · exact absurd hl (by simp [h])

end Traffic

def Duplex.traffic (d : Duplex) : Traffic where
  up := d.up
  down := d.down.bytes
  clientOpen := d.clientOpen
  hungUp := d.hungUp

namespace Hold

/-- The message that asks to serve a payload. -/
def request (h : Hold) (payload : Bytes) : Message :=
  ⟨h.client, h.stream, .request payload⟩

/-- The message that the connection is gone. -/
def hangUp (h : Hold) : Message :=
  ⟨h.client, h.stream, .hangUp⟩

end Hold

namespace Connection

/-- A connection after an offer to its reader. It is not marked as dead if the reader panics. -/
def after (c : Connection) (out : Except FrameFault (Nat × Progress) × FrameReader) :
    Connection :=
  { c with reader := out.2, dead := (FrameReader.refused? out.1).any (!·.panics) }

variable {c : Connection} {out : Except FrameFault (Nat × Progress) × FrameReader}

theorem dead_after : (c.after out).dead = false ↔
    ∀ e ∈ FrameReader.refused? out.1, e.panics = true := by
  cases he : FrameReader.refused? out.1 <;> simp [after, he]

theorem after_ok (hd : c.dead = false) (taken : Nat × Progress) (reader : FrameReader) :
    c.after (.ok taken, reader) = { c with reader } := by
  simp [after, hd, FrameReader.refused?]

end Connection

structure Ledger where
  settings : Settings
  hard : Bool
  fallen : Bool
  /-- The number of streams. -/
  streams : Nat
  /-- The streams. One that is not there yet is as a new one. -/
  traffic : StreamId → Traffic
  waiting : List StreamId
  connections : List Connection
  nextId : Nat
  workers : List Worker
  accepted : List Hold
  /-- The messages posted, each with the worker that got it. -/
  posted : List (Nat × Message)
  answered : List (Message × Option Bytes)

def Server.ledger (s : Server) : Ledger where
  settings := s.settings
  hard := s.hard
  fallen := s.fallen.isSome
  streams := s.streams.length
  traffic i := ((s.stream? i).map Duplex.traffic).getD {}
  waiting := s.waiting
  connections := s.connections
  nextId := s.nextId
  workers := s.workers
  accepted := s.journal.filterMap Event.accepted?
  posted := s.journal.filterMap Event.posted?
  answered := s.journal.filterMap Event.answered?

namespace Ledger

/-- The ledger before the first client. -/
def start (settings : Settings) (workers : Nat) : Ledger where
  settings
  hard := false
  fallen := false
  streams := 0
  traffic _ := {}
  waiting := []
  connections := []
  nextId := 0
  workers := List.replicate workers {}
  accepted := []
  posted := []
  answered := []

/-- What a client has sent. -/
def bytesSent (L : Ledger) (i : StreamId) : Bytes :=
  (L.traffic i).up.bytes

/-- What a client has been sent. -/
def delivered (L : Ledger) (i : StreamId) : Bytes :=
  (L.traffic i).down

/-- What the receiver has read from a stream. -/
def bytesRead (L : Ledger) (i : StreamId) : Bytes :=
  (L.traffic i).up.past

/-- The messages posted for a client. -/
def posts (L : Ledger) (c : ClientId) : List Message :=
  (L.posted.map Prod.snd).filter (·.sender = c)

/-- The messages posted to a worker. -/
def postedTo (L : Ledger) (w : Nat) : List Message :=
  (L.posted.filter (·.1 = w)).map Prod.snd

/-- What has been answered to a client. -/
def answers (L : Ledger) (c : ClientId) : List (Message × Option Bytes) :=
  L.answered.filter (·.1.sender = c)

/-- Changes a stream, if it is there. -/
def onStream (L : Ledger) (i : StreamId) (change : Traffic → Traffic) : Ledger :=
  { L with traffic := fun j => if j = i ∧ j < L.streams then change (L.traffic j) else L.traffic j }

def onWorker (L : Ledger) (w : Nat) (change : Worker → Worker) : Ledger :=
  { L with workers := L.workers.modify w change }

/-- Posts some messages to one worker. -/
def post (L : Ledger) (w : Nat) (ms : List Message) : Ledger :=
  { L.onWorker w fun x => { x with queue := x.queue ++ ms } with
    posted := L.posted ++ ms.map (w, ·) }

/-- Answers a message. -/
def answer (L : Ledger) (m : Message) (response : Option Bytes) : Ledger :=
  { L.onStream m.stream (Traffic.answer response) with answered := L.answered ++ [(m, response)] }

/-- A worker that may be picked for a client. -/
def Picks (L : Ledger) (c : ClientId) (w : Nat) : Prop :=
  ∃ n, w = n % L.workers.length ∧ (L.settings.selection = .sticky → n = c.number)

/-- The `k`-th connection has read some bytes, after which the pipe is `up`. If they make the reader
panic, the receiver falls. -/
def hear (L : Ledger) (k : Nat) (c : Connection) (bytes : Bytes) (up : Pipe) : Ledger :=
  { L with
    connections := L.connections.set k (c.after (c.reader.offer bytes))
    fallen := (FrameReader.refused? (c.reader.offer bytes).1).any FrameFault.panics }.onStream
      c.stream ({ · with up })

/-- The `k`-th connection has read some bytes, and the message that they complete, if any, is
posted. -/
def listen (L : Ledger) (k : Nat) (c : Connection) (bytes : Bytes) (up : Pipe) (w : Nat) : Ledger :=
  (L.hear k c bytes up).post w ((FrameReader.completed (c.reader.offer bytes).1).map c.hold.request)

/-! ## What an action can do -/

/-- What an action can do to the ledger. -/
inductive Step (L : Ledger) : Action → Ledger → Prop where
  /-- Nothing, or some connections count as dead from now on. -/
  | mark {a : Action} {cs : List Connection} :
      cs.map Connection.hold = L.connections.map Connection.hold →
      (∀ k ∈ cs, k.dead = false → k ∈ L.connections) → Step L a { L with connections := cs }
  | stop : Step L .stopAll { L with hard := true }
  | sever {traffic : StreamId → Traffic} :
      (∀ i, traffic i = L.traffic i ∨
        (∃ k ∈ L.connections, k.stream = i) ∧ traffic i = (L.traffic i).hangUp) →
      Step L .sever { L with
        traffic, connections := L.connections.map ({ · with dead := true }) }
  | close {i : StreamId} : Step L (.close i) (L.onStream i Traffic.close)
  | cutOff {w : Nat} {m : Message} {queue : List Message} :
      L.workers[w]? = some ⟨queue, .served m⟩ →
      Step L (.failWrite w) (L.onStream m.stream Traffic.hangUp)
  | connect : Step L .connect
      { L with streams := L.streams + 1, waiting := L.waiting ++ [L.streams] }
  | send {i : StreamId} {bytes : Bytes} : Step L (.send i bytes)
      (L.onStream i fun l => { l with up := l.up.send bytes })
  | turnAway {a : Action} {i : StreamId} {waiting : List StreamId} : L.waiting = i :: waiting →
      Step L a { L with waiting }
  | accept {i : StreamId} {waiting : List StreamId} : L.waiting = i :: waiting →
      Step L .accept { L with
        waiting
        connections := L.connections ++
          [{ id := ⟨L.nextId⟩, stream := i, reader := { limit := L.settings.maxMessage } }]
        nextId := L.nextId + 1
        accepted := L.accepted ++ [⟨⟨L.nextId⟩, i⟩] }
  | read {k w : Nat} {c : Connection} {bytes : Bytes} {up : Pipe} : L.fallen = false →
      L.connections[k]? = some c → c.dead = false →
      (L.traffic c.stream).up.take c.reader.wanted = (bytes, up) → L.Picks c.id w →
      Step L (.read k) (L.listen k c bytes up w)
  | reap {k w : Nat} {c : Connection} : L.connections[k]? = some c → c.dead = true →
      L.Picks c.id w →
      Step L (.reap k) ({ L with connections := L.connections.eraseIdx k }.post w [c.hold.hangUp])
  | pull {w : Nat} {m : Message} {queue : List Message} :
      L.workers[w]? = some ⟨m :: queue, .idle⟩ →
      Step L (.pull w) (L.onWorker w fun _ => ⟨queue, .serving m⟩)
  | answer {w : Nat} {m : Message} {queue : List Message} {payload : Bytes}
      {response : Option Bytes} :
      L.workers[w]? = some ⟨queue, .serving m⟩ → m.work = .request payload →
      Step L (.apply w) ((L.answer m response).onWorker w fun _ => ⟨queue, .served m⟩)
  | heed {w : Nat} {m : Message} {queue : List Message} :
      L.workers[w]? = some ⟨queue, .serving m⟩ → m.work = .hangUp →
      Step L (.apply w) (L.onWorker w fun _ => ⟨queue, .served m⟩)
  | letGo {w : Nat} {m : Message} {queue : List Message} :
      L.workers[w]? = some ⟨queue, .served m⟩ →
      Step L (.letGo w) (L.onWorker w fun _ => ⟨queue, .idle⟩)

theorem onStream_self (L : Ledger) (i : StreamId) : L.onStream i id = L := by
  unfold onStream
  simp

/-- A changed stream is the one that was to be changed. -/
theorem traffic_onStream (L : Ledger) (i j : StreamId) (change : Traffic → Traffic) :
    (L.onStream i change).traffic j = L.traffic j ∨
      j = i ∧ (L.onStream i change).traffic j = change (L.traffic j) := by
  simp only [onStream]
  split
  · rename_i h
    exact .inr ⟨h.1, rfl⟩
  · exact .inl rfl

end Ledger

/-! ## The ledger of a changed server -/

namespace Server

variable {s : Server}

theorem ledger_onStream {i : StreamId} {change : Duplex → Duplex} {f : Traffic → Traffic}
    (h : ∀ d, s.stream? i = some d → (change d).traffic = f d.traffic) :
    (s.onStream i change).ledger = s.ledger.onStream i f := by
  have htraffic : (s.onStream i change).ledger.traffic = (s.ledger.onStream i f).traffic := by
    funext j
    have hj : (s.onStream i change).stream? j =
        if i = j then (s.stream? j).map change else s.stream? j := by
      rw [stream?, onStream, List.getElem?_modify]
      split <;> simp [stream?]
    by_cases hi : i = j
    · subst hi
      cases hd : s.stream? i with
      | none =>
          have hn : ¬ i < s.streams.length := Nat.not_lt.mpr (List.getElem?_eq_none_iff.mp hd)
          simp [ledger, Ledger.onStream, hj, hd, hn]
      | some d =>
          have hn : i < s.streams.length := (List.getElem?_eq_some_iff.mp hd).1
          simp [ledger, Ledger.onStream, hj, hd, hn, h d hd]
    · simp [ledger, Ledger.onStream, hj, hi, Ne.symm hi]
  have hlen : (s.onStream i change).ledger.streams = s.ledger.streams := List.length_modify ..
  exact congrArg₂ (fun traffic streams => { s.ledger with traffic, streams }) htraffic hlen

/-- A change that counts for nothing. -/
theorem ledger_onStream_same {i : StreamId} {change : Duplex → Duplex}
    (h : ∀ d, s.stream? i = some d → (change d).traffic = d.traffic) :
    (s.onStream i change).ledger = s.ledger := by
  rw [ledger_onStream (f := id) h, Ledger.onStream_self]

theorem ledger_note (s : Server) (e : Event) : (s.note e).ledger = { s.ledger with
    accepted := s.ledger.accepted ++ e.accepted?.toList
    posted := s.ledger.posted ++ e.posted?.toList
    answered := s.ledger.answered ++ e.answered?.toList } := by
  have hnew : ∀ {α : Type} (view : Event → Option α),
      (s.journal ++ [e]).filterMap view = s.journal.filterMap view ++ (view e).toList := by
    intro α view
    cases hv : view e <;> simp [hv]
  simp only [note, ledger, hnew]
  rfl

theorem ledger_hold (s : Server) (i : StreamId) : (s.onStream i Duplex.hold).ledger = s.ledger :=
  ledger_onStream_same fun _ _ => rfl

theorem ledger_drop (s : Server) (i : StreamId) : (s.onStream i Duplex.drop).ledger = s.ledger :=
  ledger_onStream_same fun _ _ => rfl

/-- A note of which nothing is written down. -/
theorem ledger_note_silent {e : Event} (ha : e.accepted? = none) (hp : e.posted? = none)
    (hn : e.answered? = none) : (s.note e).ledger = s.ledger := by
  rw [ledger_note, ha, hp, hn]
  simp

/-- A note of an answer. -/
theorem ledger_note_answered {e : Event} {m : Message} {response : Option Bytes}
    (ha : e.accepted? = none) (hp : e.posted? = none) (hn : e.answered? = some (m, response)) :
    (s.note e).ledger =
      { s.ledger with answered := s.ledger.answered ++ [(m, response)] } := by
  rw [ledger_note, ha, hp, hn]
  simp

theorem ledger_withConnections (s : Server) (cs : List Connection) :
    (s.withConnections cs).ledger = { s.ledger with connections := cs } :=
  rfl

theorem ledger_post (s : Server) (w : Nat) (m : Message) :
    (s.post w m).ledger = s.ledger.post w [m] := by
  rw [post, ledger_note]
  simp [Event.accepted?, Event.posted?, Event.answered?]
  rfl

theorem ledger_dispatch (s : Server) (m : Message) :
    ∃ w, s.ledger.Picks m.sender w ∧ (s.dispatch m).ledger = s.ledger.post w [m] := by
  unfold dispatch workerFor
  cases hs : s.settings.selection with
  | sticky => exact ⟨_, ⟨_, rfl, fun _ => rfl⟩, ledger_post ..⟩
  | random =>
      exact ⟨_, ⟨s.dice.roll.1, rfl, fun h => absurd (hs.symm.trans h) (by decide)⟩,
        ledger_post { s with dice := s.dice.roll.2 } ..⟩

/-! ## Every action is a step -/

theorem traffic_hangUp (d : Duplex) : d.hangUp.traffic = d.traffic.hangUp :=
  rfl

end Server

namespace Ledger

variable {L L' : Ledger} {a : Action}

theorem Step.none (L : Ledger) (a : Action) : L.Step a L := by
  have hs : L.Step a { L with connections := L.connections } := .mark rfl fun _ h _ => h
  exact hs

theorem Step.settings_eq (h : L.Step a L') : L'.settings = L.settings := by
  cases h <;> rfl

theorem Step.length_workers (h : L.Step a L') : L'.workers.length = L.workers.length := by
  cases h with
  | mark | stop | sever | close | cutOff | connect | send | turnAway | accept => rfl
  | read | reap | pull | answer | heed | letGo => exact List.length_modify ..

theorem picks_own (L : Ledger) (c : ClientId) : L.Picks c (c.number % L.workers.length) :=
  ⟨_, rfl, fun _ => rfl⟩

theorem post_nil (L : Ledger) (w : Nat) : L.post w [] = L := by
  have hw : L.workers.modify w (fun x => { x with queue := x.queue ++ [] }) = L.workers := by
    simp only [List.append_nil]
    exact List.modify_id ..
  rw [post, onWorker, hw]
  simp

theorem Step.answered_prefix (h : L.Step a L') : L.answered <+: L'.answered := by
  cases h with
  | answer => exact List.prefix_append ..
  | mark | stop | sever | close | cutOff | connect | send | turnAway | accept | read | reap | pull
  | heed | letGo => exact List.prefix_rfl

/-- A worker after a change of one of them. -/
theorem exists_of_onWorker {v w : Nat} {change : Worker → Worker} {x : Worker}
    (h : (L.onWorker v change).workers[w]? = some x) :
    ∃ y, L.workers[w]? = some y ∧ x = if v = w then change y else y := by
  have hget : (L.workers.modify v change)[w]? = some x := h
  rw [List.getElem?_modify] at hget
  obtain ⟨y, hy, rfl⟩ := Option.map_eq_some_iff.mp hget
  exact ⟨y, hy, rfl⟩

theorem Step.picks_iff (h : L.Step a L') {c : ClientId} {w : Nat} :
    L'.Picks c w ↔ L.Picks c w := by
  unfold Picks
  rw [h.length_workers, h.settings_eq]

/-- What a step posts, if anything, is from one client, to a worker that may be picked for it. -/
theorem Step.posted_eq (h : L.Step a L') : ∃ (c : ClientId) (w : Nat) (ms : List Message),
    L.Picks c w ∧ (∀ m ∈ ms, m.sender = c) ∧ L'.posted = L.posted ++ ms.map (w, ·) := by
  cases h with
  | read _ _ _ _ hw => exact ⟨_, _, _, hw, by simp [Hold.request, Connection.hold], rfl⟩
  | reap _ _ hw => exact ⟨_, _, _, hw, by simp [Hold.hangUp, Connection.hold], rfl⟩
  | mark | stop | sever | close | cutOff | connect | send | turnAway | accept | pull | answer | heed
  | letGo =>
      exact ⟨⟨0⟩, _, [], L.picks_own _, by simp, (List.append_nil _).symm⟩

theorem Step.posted_prefix (h : L.Step a L') : L.posted <+: L'.posted := by
  obtain ⟨c, w, ms, -, -, hp⟩ := h.posted_eq
  exact hp ▸ List.prefix_append ..

end Ledger

namespace Server

variable {s : Server}

theorem step_connect (s : Server) : s.ledger.Step .connect s.connect.2.ledger := by
  have htraffic : s.connect.2.ledger.traffic = s.ledger.traffic := by
    funext j
    have hj : s.connect.2.stream? j = (s.streams ++ [({} : Duplex)])[j]? := rfl
    simp only [ledger]
    rw [hj, stream?]
    rcases Nat.lt_trichotomy j s.streams.length with hlt | rfl | hgt
    · rw [List.getElem?_append_left hlt]
    · rw [List.getElem?_concat_length, List.getElem?_eq_none (Nat.le_refl _)]
      rfl
    · rw [List.getElem?_eq_none (by simpa using Nat.succ_le_of_lt hgt),
        List.getElem?_eq_none (Nat.le_of_lt hgt)]
  have hl : s.connect.2.ledger = { s.ledger with
      streams := s.ledger.streams + 1, waiting := s.ledger.waiting ++ [s.ledger.streams] } := by
    have hlen : s.connect.2.ledger.streams = s.ledger.streams + 1 := List.length_append ..
    exact congrArg₂ (fun traffic streams => { s.ledger with
      traffic, streams, waiting := s.ledger.waiting ++ [s.ledger.streams] }) htraffic hlen
  rw [hl]
  exact .connect

theorem step_clientSend (s : Server) (i : StreamId) (bytes : Bytes) :
    s.ledger.Step (.send i bytes) ((s.clientSend i bytes).getD s).ledger := by
  cases ht : s.clientSend i bytes with
  | none => exact .none ..
  | some t =>
      obtain ⟨d, hd, rfl⟩ := Option.map_eq_some_iff.mp ht
      obtain ⟨old, ho, hs⟩ := Option.bind_eq_some_iff.mp hd
      have hnew : ∀ e, s.stream? i = some e →
          d.traffic = { e.traffic with up := e.traffic.up.send bytes } := by
        intro e he
        obtain rfl : old = e := Option.some.inj (ho.symm.trans he)
        unfold Duplex.clientSend at hs
        split at hs
        · rw [← Option.some.inj hs]
          rfl
        · simp at hs
      rw [Option.getD_some, ledger_onStream (f := fun l => { l with up := l.up.send bytes }) hnew]
      exact .send

theorem ledger_clientReceive (s : Server) (i : StreamId) :
    (s.clientReceive i).2.2.ledger = s.ledger := by
  unfold clientReceive
  cases hd : s.stream? i with
  | none => rfl
  | some d =>
      apply ledger_onStream_same
      intro e he
      obtain rfl : d = e := Option.some.inj (hd.symm.trans he)
      rfl

/-- A fallen receiver's connections are let go of in silence. -/
theorem ledger_forsakeNext (s : Server) : s.forsakeNext.ledger = s.ledger := by
  rcases s.forsakeNext_cases with he | ⟨n, c, hf, -, he⟩
  · rw [he]
  · rw [he, ledger_drop]
    have hfallen : s.ledger.fallen = true := by simp [ledger, hf]
    exact congrArg (fun fallen => { s.ledger with fallen }) hfallen.symm

/-- What the receiver does is a step, or nothing. -/
theorem step_receiving {a : Action} {act : Server → Server}
    (h : s.fallen = none → s.ledger.Step a (act s).ledger) :
    s.ledger.Step a (s.receiving act).ledger :=
  receiving_ind (P := fun t => s.ledger.Step a t.ledger) (.none ..) h

theorem ledger_halfClose (s : Server) (i : StreamId) : (s.halfClose i).ledger = s.ledger :=
  ledger_onStream_same fun _ _ => rfl

theorem step_clientClose (s : Server) (i : StreamId) :
    s.ledger.Step (.close i) (s.clientClose i).ledger := by
  have hl : (s.clientClose i).ledger = s.ledger.onStream i Traffic.close :=
    ledger_onStream fun _ _ => rfl
  exact hl ▸ .close

theorem ledger_release (s : Server) (c : ClientId) : (s.release c).ledger = s.ledger :=
  ledger_note_silent rfl rfl rfl

theorem step_reapAt (s : Server) (k : Nat) : s.ledger.Step (.reap k) (s.reapAt k).ledger := by
  unfold reapAt
  cases hk : s.connections[k]? with
  | none => exact .none ..
  | some c =>
      cases hd : c.dead with
      | false => simpa [hd] using .none ..
      | true =>
          obtain ⟨w, hw, hl⟩ := ledger_dispatch
            ((s.withConnections (s.connections.eraseIdx k)).note (.reaped c.id)) c.hold.hangUp
          rw [ledger_note_silent rfl rfl rfl, ledger_withConnections] at hl hw
          simp only [hd, if_true]
          exact hl ▸ .reap hk hd hw

/-- What is made of the bytes that a connection has read. -/
theorem offer_ledger {c : Connection} (hf : s.fallen = none) (hd : c.dead = false) (bytes : Bytes) :
    (s.offer c bytes).1 = c.after (c.reader.offer bytes) ∧
      ∃ w, s.ledger.Picks c.id w ∧ (s.offer c bytes).2.ledger = { s.ledger with
        fallen := (FrameReader.refused? (c.reader.offer bytes).1).any FrameFault.panics }.post w
          ((FrameReader.completed (c.reader.offer bytes).1).map c.hold.request) := by
  have hown := s.ledger.picks_own c.id
  have hstands : { s.ledger with fallen := false } = s.ledger := by simp [ledger, hf]
  have hsame : s.ledger =
      { s.ledger with fallen := false }.post (c.id.number % s.ledger.workers.length) [] :=
    ((Ledger.post_nil ..).trans hstands).symm
  unfold offer
  rcases c.reader.offer bytes with ⟨fault | ⟨consumed, missing | payload⟩, reader⟩
  · cases fault with
    | tooLarge => exact ⟨rfl, _, hown, hsame⟩
    | overCapacity | overrun =>
        exact ⟨congrArg (Connection.mk _ _ _) hd, _, hown, (Ledger.post_nil ..).symm⟩
  · exact ⟨(Connection.after_ok hd ..).symm, _, hown, hsame⟩
  · obtain ⟨w, hw, hl⟩ := ledger_dispatch (s.onStream c.stream Duplex.hold) (c.hold.request payload)
    rw [ledger_hold] at hl hw
    have hpost := congrArg (Ledger.post · w [c.hold.request payload]) hstands.symm
    exact ⟨(Connection.after_ok hd ..).symm, w, hw, hl.trans hpost⟩

/-- What a read does: the connection dies, or its reader takes what there is. -/
theorem read_ledger {c : Connection} (hf : s.fallen = none) (hd : c.dead = false) :
    ((s.read c).1 = { c with dead := true } ∧ (s.read c).2.ledger = s.ledger) ∨
      ∃ bytes up w, (s.ledger.traffic c.stream).up.take c.reader.wanted = (bytes, up) ∧
        s.ledger.Picks c.id w ∧ (s.read c).1 = c.after (c.reader.offer bytes) ∧
        (s.read c).2.ledger = { s.ledger.onStream c.stream ({ · with up }) with
          fallen := (FrameReader.refused? (c.reader.offer bytes).1).any FrameFault.panics }.post w
            ((FrameReader.completed (c.reader.offer bytes).1).map c.hold.request) := by
  unfold read
  cases hs : s.stream? c.stream with
  | none => exact .inl ⟨rfl, rfl⟩
  | some d =>
      have htraffic : s.ledger.traffic c.stream = d.traffic := by simp [ledger, hs]
      simp only
      cases ht : d.up.take c.reader.wanted with
      | mk bytes up =>
          cases he : bytes.isEmpty with
          | true =>
              -- Nothing was taken, so the pipe is as before.
              refine .inl ⟨rfl, ledger_onStream_same fun e h => ?_⟩
              obtain rfl : d = e := Option.some.inj (hs.symm.trans h)
              have htaken := congrArg Prod.snd ht
              have hnil := congrArg Prod.fst ht
              rw [List.isEmpty_iff.mp he] at hnil
              simp only [Pipe.take] at hnil htaken
              simp only [Duplex.traffic, ← htaken, hnil, List.length_nil, Nat.add_zero]
          | false =>
              have hup : (s.onStream c.stream ({ · with up })).ledger =
                  s.ledger.onStream c.stream ({ · with up }) := ledger_onStream fun _ _ => rfl
              obtain ⟨hc, w, hw, hl⟩ :=
                (s.onStream c.stream ({ · with up })).offer_ledger hf hd bytes
              rw [hup] at hw hl
              exact .inr ⟨bytes, up, w, htraffic ▸ ht, hw, hc, hl⟩

theorem step_mark (s : Server) {a : Action} {k : Nat} {c : Connection}
    (hk : s.connections[k]? = some c) :
    s.ledger.Step a
      { s.ledger with connections := s.connections.set k { c with dead := true } } := by
  refine .mark (map_set_eq hk rfl) ?_
  intro k' hk' hd
  rcases List.mem_or_eq_of_mem_set hk' with hm | rfl
  · exact hm
  · exact absurd hd (by simp)

theorem step_killAt (s : Server) (k : Nat) {a : Action} : s.ledger.Step a (s.killAt k).ledger := by
  have hkill : s.killAt k =
      s.withConnections (s.connections.modify k ({ · with dead := true })) := rfl
  rw [hkill, ledger_withConnections, List.modify_eq_set_getElem?]
  cases hk : s.connections[k]? with
  | none => exact .none ..
  | some c => exact step_mark s hk

theorem step_readAt (hf : s.fallen = none) (k : Nat) :
    s.ledger.Step (.read k) (s.readAt k).ledger := by
  unfold readAt
  cases hk : s.connections[k]? with
  | none => exact .none ..
  | some c =>
      simp only
      split
      · rename_i hready
        have hd : c.dead = false := by simpa using (Bool.and_eq_true_iff.mp hready).1
        have hset : { (s.read c).2 with connections := s.connections.set k (s.read c).1 }.ledger =
            { (s.read c).2.ledger with connections := s.connections.set k (s.read c).1 } := rfl
        rw [hset]
        rcases read_ledger hf hd with ⟨hc, hl⟩ | ⟨bytes, up, w, ht, hw, hc, hl⟩
        · rw [hl, hc]
          exact step_mark s hk
        · rw [hl, hc]
          exact .read (by simp [ledger, hf]) hk hd ht hw
      · exact .none ..

theorem step_acceptNext (s : Server) : s.ledger.Step .accept s.acceptNext.ledger := by
  unfold acceptNext
  cases hw : s.waiting with
  | nil => exact .none ..
  | cons i waiting =>
      unfold accept
      simp only
      split
      · rw [ledger_drop]
        exact .turnAway hw
      · rw [ledger_note]
        simp only [Event.accepted?, Event.posted?, Event.answered?, Option.toList_some,
          Option.toList_none, List.append_nil]
        exact .accept hw

theorem step_turnAway (s : Server) {a : Action} : s.ledger.Step a s.turnAway.ledger := by
  unfold turnAway
  cases hw : s.waiting with
  | nil => exact .none ..
  | cons i waiting =>
      simp only
      rw [ledger_drop]
      exact .turnAway hw

theorem step_sever (s : Server) : s.ledger.Step .sever s.sever.ledger := by
  have hall : ∀ (cs : List Connection) (s : Server), ∃ traffic : StreamId → Traffic,
      (∀ i, traffic i = s.ledger.traffic i ∨
        (∃ k ∈ cs, k.stream = i) ∧ traffic i = (s.ledger.traffic i).hangUp) ∧
      (cs.foldl (fun s c => s.onStream c.stream Duplex.hangUp) s).ledger =
        { s.ledger with traffic } := by
    -- The induction is on the streams hung up on; one that was before may be again.
    intro cs
    induction cs with
    | nil => exact fun s => ⟨_, fun _ => .inl rfl, rfl⟩
    | cons c cs ih =>
        intro s
        obtain ⟨traffic, htraffic, hl⟩ := ih (s.onStream c.stream Duplex.hangUp)
        rw [ledger_onStream fun d _ => traffic_hangUp d] at htraffic hl
        refine ⟨traffic, fun i => ?_, hl⟩
        have hi := htraffic i
        simp only [Ledger.onStream] at hi
        split at hi
        · rename_i he
          exact .inr ⟨⟨c, by simp, he.1.symm⟩, hi.elim id And.right⟩
        · exact hi.imp_right fun ⟨⟨k, hk, he⟩, ht⟩ => ⟨⟨k, List.mem_cons_of_mem _ hk, he⟩, ht⟩
  obtain ⟨traffic, htraffic, hl⟩ := hall s.connections s
  have hconn : (s.connections.foldl (fun s c => s.onStream c.stream Duplex.hangUp) s).connections =
      s.connections := congrArg Ledger.connections hl
  have hsever : s.sever =
      (s.connections.foldl (fun s c => s.onStream c.stream Duplex.hangUp) s).withConnections
        ((s.connections.foldl (fun s c => s.onStream c.stream Duplex.hangUp) s).connections.map
          ({ · with dead := true })) := rfl
  rw [hsever, hconn, ledger_withConnections, hl]
  exact .sever htraffic

theorem step_cutOff (s : Server) (w : Nat) : s.ledger.Step (.failWrite w) (s.cutOff w).ledger := by
  unfold cutOff
  split
  · rename_i queue m hw
    rw [ledger_onStream fun d _ => traffic_hangUp d]
    exact .cutOff hw
  · exact .none ..

theorem step_look (s : Server) (w : Nat) : s.ledger.Step (.pull w) (s.look w).2.ledger := by
  unfold look
  split
  · exact .none ..
  · unfold pull?
    split
    · rename_i hp
      split at hp
      · rename_i m queue hw
        obtain ⟨rfl, rfl⟩ := Prod.mk.inj (Option.some.inj hp)
        exact .pull hw
      · simp at hp
    · exact .none ..

theorem step_letGo (s : Server) (w : Nat) : s.ledger.Step (.letGo w) (s.letGo w).2.ledger := by
  unfold letGo
  split
  · rename_i queue m hw
    have hl : ((s.onStream m.stream Duplex.drop).onWorker w fun _ => ⟨queue, .idle⟩).ledger =
        (s.onStream m.stream Duplex.drop).ledger.onWorker w fun _ => ⟨queue, .idle⟩ := rfl
    rw [hl, ledger_drop]
    exact .letGo hw
  · exact .none ..

theorem traffic_serverSend (d : Duplex) {bytes : Bytes} (hb : bytes.isEmpty = false) :
    (d.serverSend bytes).traffic = d.traffic.answer (some bytes) := by
  unfold Duplex.serverSend Traffic.answer
  simp only [hb, Bool.false_eq_true, if_false]
  change (if d.traffic.live then _ else _ : Duplex).traffic = _
  split <;> rfl

theorem ledger_answer (s : Server) (m : Message) (payload : Bytes) :
    ∃ response, (s.answer m payload).ledger = s.ledger.answer m response := by
  unfold answer
  cases Request.decode payload with
  | error why =>
      refine ⟨none, ?_⟩
      simp only
      rw [ledger_note_answered rfl rfl rfl,
        ledger_onStream (f := Traffic.answer none) fun d _ => traffic_hangUp d]
      rfl
  | ok request =>
      simp only
      refine ⟨some (s.store.respond m.sender request).1.encode, ?_⟩
      generalize (s.store.respond m.sender request).1.encode = bytes
      have hn : ({ s with store := (s.store.respond m.sender request).2 }.note
          (.applied m request bytes)).ledger =
            { s.ledger with answered := s.ledger.answered ++ [(m, some bytes)] } :=
        ledger_note_answered rfl rfl rfl
      split
      · rename_i he
        rw [List.isEmpty_iff.mp he] at hn ⊢
        rw [hn, Ledger.answer, Traffic.answer_nil, Ledger.onStream_self]
      · rename_i he
        rw [ledger_onStream fun d _ => traffic_serverSend d (by simpa using he), hn]
        rfl

theorem step_apply (s : Server) (w : Nat) : s.ledger.Step (.apply w) (s.apply w).ledger := by
  unfold apply
  split
  · rename_i queue m hw
    cases hwork : m.work with
    | request payload =>
        obtain ⟨response, hl⟩ := s.ledger_answer m payload
        have hstep : s.ledger.Step (.apply w)
            ((s.ledger.answer m response).onWorker w fun _ => ⟨queue, .served m⟩) :=
          .answer hw hwork
        rw [← hl] at hstep
        exact hstep
    | hangUp => exact .heed hw hwork
  · exact .none ..

end Server

namespace Scene

/-- Every action is a step of the ledger. -/
theorem step_ledger (r : Scene) (a : Action) :
    r.server.ledger.Step a (r.step a).server.ledger := by
  cases a with
  | connect => exact r.server.step_connect
  | send i bytes => exact r.server.step_clientSend i bytes
  | halfClose i => exact (r.server.ledger_halfClose i).symm ▸ .none ..
  | close i => exact r.server.step_clientClose i
  | receive i => exact (r.server.ledger_clientReceive i).symm ▸ .none ..
  | closeDoor => exact .none ..
  | stopAll => exact .stop
  | reap k => exact Server.step_receiving fun _ => r.server.step_reapAt k
  | read k => exact Server.step_receiving fun hf => Server.step_readAt hf k
  | accept => exact Server.step_receiving fun _ => r.server.step_acceptNext
  | sever => exact Server.step_receiving fun _ => r.server.step_sever
  | forsake => exact r.server.ledger_forsakeNext.symm ▸ .none ..
  | pull w => exact r.server.step_look w
  | apply w => exact r.server.step_apply w
  | letGo w => exact r.server.step_letGo w
  | release k =>
      simp only [step]
      split
      · exact .none ..
      · rename_i c hc
        exact (Server.ledger_release r.server c).symm ▸ .none ..
  | failSetup => exact r.server.step_turnAway
  | failRead k => exact Server.step_receiving fun _ => r.server.step_killAt k
  | failWrite w => exact r.server.step_cutOff w

/-! ## Runs -/

variable {r : Scene}

theorem ledger_start (settings : Settings) (store : Store) (workers : Nat) (dice : Dice) :
    (start settings store workers dice).server.ledger = .start settings workers :=
  rfl

/-- What every step keeps holds after every run. -/
theorem ledger_run {P : Ledger → Prop}
    (hstep : ∀ {L L' : Ledger} {a : Action}, P L → L.Step a L' → P L') (h : P r.server.ledger)
    (actions : List Action) : P (r.run actions).server.ledger := by
  induction actions generalizing r with
  | nil => exact h
  | cons a actions ih => exact ih (hstep h (r.step_ledger a))

theorem settings_run (r : Scene) (actions : List Action) :
    (r.run actions).server.settings = r.server.settings :=
  ledger_run (P := fun L => L.settings = r.server.settings) (fun h hs => hs.settings_eq.trans h) rfl
    actions

theorem length_workers_run (r : Scene) (actions : List Action) :
    (r.run actions).server.workers.length = r.server.workers.length :=
  ledger_run (P := fun L => L.workers.length = r.server.workers.length)
    (fun h hs => hs.length_workers.trans h) rfl actions

theorem posted_prefix_run (r : Scene) (actions : List Action) :
    r.server.ledger.posted <+: (r.run actions).server.ledger.posted :=
  ledger_run (P := fun L => r.server.ledger.posted <+: L.posted)
    (fun h hs => h.trans hs.posted_prefix) List.prefix_rfl actions

theorem answered_prefix_run (r : Scene) (actions : List Action) :
    r.server.ledger.answered <+: (r.run actions).server.ledger.answered :=
  ledger_run (P := fun L => r.server.ledger.answered <+: L.answered)
    (fun h hs => h.trans hs.answered_prefix) List.prefix_rfl actions

end Scene

end FileDepot
