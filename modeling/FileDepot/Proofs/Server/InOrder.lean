import FileDepot.Proofs.Server.Replay
import FileDepot.Proofs.Server.Replying

/-! # Connections are served in order

Under sticky selection, whatever the receiver, the workers and the clients do and in whatever order:
the requests of a connection are applied in the order in which they were sent, and the client gets
the responses to them in that order. -/

namespace FileDepot

namespace Ledger

/-- What holds between any two actions of a run under sticky selection. -/
structure Serves (L : Ledger) : Prop where
  staffed : 0 < L.workers.length
  sticky : L.settings.selection = .sticky
  kept : L.Kept
  ordered : L.Ordered
  held : L.Held
  delivered : L.Delivered

variable {L L' : Ledger} {a : Action}

theorem Serves.step (h : L.Serves) (hs : L.Step a L') : L'.Serves where
  staffed := hs.length_workers ▸ h.staffed
  sticky := hs.settings_eq ▸ h.sticky
  kept := h.kept.step hs
  ordered := h.ordered.step h.staffed h.sticky hs
  held := h.held.step h.kept hs
  delivered := h.delivered.step h.kept h.held hs

theorem serves_start {settings : Settings} (hs : settings.selection = .sticky) {workers : Nat}
    (hw : 0 < workers) : (start settings workers).Serves := by
  have hidle : ∀ (w : Nat) (x : Worker), (start settings workers).workers[w]? = some x → x = {} :=
    fun w x hx => List.eq_of_mem_replicate (List.mem_of_getElem? hx)
  refine ⟨?_, hs, kept_start .., ⟨?_, ?_⟩, ⟨?_, ?_⟩, ⟨?_, ?_, ?_⟩⟩
  · simpa [start] using hw
  · intro w x hx m hm
    rw [hidle w x hx] at hm
    simp [Worker.unserved] at hm
  · intro c
    refine ⟨[], ?_, rfl⟩
    have hnone : (start settings workers).unserved c = [] := by
      unfold unserved
      cases hx : (start settings workers).workers[c.number %
          (start settings workers).workers.length]? with
      | none => rfl
      | some x =>
          rw [hidle _ x hx]
          rfl
    rw [hnone]
    rfl
  · intro w x hx m hm
    rw [hidle w x hx] at hm
    simp [Worker.messages, Hand.messages] at hm
  · simp [start]
  · exact fun i _ => ⟨rfl, rfl⟩
  · simp [start]
  · simp [start]

theorem requests_prefix (x : Hold) (limit : Nat) {bytes later : Bytes} (h : bytes <+: later) :
    x.requests limit bytes <+: x.requests limit later := by
  obtain ⟨rest, rfl⟩ := h
  exact (Frame.payloads_parse_append bytes rest).map _

theorem bytesRead_prefix (L : Ledger) (i : StreamId) : L.bytesRead i <+: L.bytesSent i :=
  List.take_prefix ..

end Ledger

namespace Scene

/-- A run in which every action may happen in its turn. -/
def Regular : Scene → List Action → Prop
  | _, [] => True
  | r, a :: actions => r.server.ledger.Allows a ∧ Regular (r.step a) actions

variable {r : Scene}

theorem spared_run (h : r.server.ledger.Spared) (hserves : r.server.ledger.Serves)
    {actions : List Action} (hr : r.Regular actions) : (r.run actions).server.ledger.Spared := by
  induction actions generalizing r with
  | nil => exact h
  | cons a actions ih =>
      have hs := r.step_ledger a
      exact ih (h.step hserves.delivered hserves.kept hserves.held hr.1 hs) (hserves.step hs) hr.2

theorem serves_run (h : r.server.ledger.Serves) (actions : List Action) :
    (r.run actions).server.ledger.Serves :=
  ledger_run (fun h hs => h.step hs) h actions

theorem not_live_run {i : StreamId} (hl : (r.server.ledger.traffic i).live = false)
    (actions : List Action) :
    (r.run actions).server.ledger.delivered i = r.server.ledger.delivered i := by
  induction actions generalizing r with
  | nil => rfl
  | cons a actions ih =>
      obtain ⟨hd, hl⟩ := (r.step_ledger a).not_live hl
      exact (ih hl).trans hd

/-- What a server has made of its clients' requests after some actions of a run: it has applied each
connection's in their order, and sent it the responses in that order. -/
structure Served (first : Scene) (actions : List Action) : Prop where
  /-- The journal accounts for the store, so each request in it was applied once, where it
  stands. -/
  replays : Replays first.server.store (first.run actions).server.journal
    (first.run actions).server.store
  /-- Accepted connections have clients and streams of their own. -/
  clients_nodup : ((first.run actions).server.ledger.accepted.map Hold.client).Nodup
  streams_nodup : ((first.run actions).server.ledger.accepted.map Hold.stream).Nodup
  answered_accepted : ∀ p ∈ (first.run actions).server.ledger.answered,
    p.1.hold ∈ (first.run actions).server.ledger.accepted
  /-- What has been answered to a connection are the first of the requests in the bytes that it has
  sent, in their order. -/
  answers_prefix : let L := (first.run actions).server.ledger
    ∀ h ∈ L.accepted, (L.answers h.client).map Prod.fst <+:
      h.requests first.server.settings.maxMessage (L.bytesSent h.stream)
  /-- Nothing more is answered once the hang-up has been handled. -/
  answers_end : let L := (first.run actions).server.ledger
    ∀ h ∈ L.accepted, h.hangUp ∈ L.posts h.client →
      (∀ x ∈ (first.run actions).server.workers, h.hangUp ∉ x.unserved) →
        ∀ later, ((first.run actions).run later).server.ledger.answers h.client = L.answers h.client
  /-- A client has been sent a first part of the responses to its own requests, up to the first
  payload that was no request. -/
  delivered_prefix : let L := (first.run actions).server.ledger
    ∀ h ∈ L.accepted, L.delivered h.stream <+: replies (L.responses h.client)
  delivered_stranger : let L := (first.run actions).server.ledger
    ∀ i, i ∉ L.accepted.map Hold.stream → L.delivered i = []
  /-- Nothing more is sent after a payload that was no request. -/
  delivered_end : let L := (first.run actions).server.ledger
    ∀ h ∈ L.accepted, none ∈ L.responses h.client →
      ∀ later, ((first.run actions).run later).server.ledger.delivered h.stream =
        L.delivered h.stream
  /-- Where the receiver does not hang up early and writes to open streams do not fail, it is all of
  the responses, unless a hard request was made or the client gave up its end. -/
  delivered_eq : let L := (first.run actions).server.ledger
    first.Regular actions → (first.run actions).server.hard = false → ∀ h ∈ L.accepted,
      (L.traffic h.stream).clientOpen = true → L.delivered h.stream = replies (L.responses h.client)

/-- In every run under sticky selection, whatever the number of workers and clients and whatever
they send, connections are served in order. -/
theorem served_in_order (settings : Settings) (hs : settings.selection = .sticky) (store : Store)
    (workers : Nat) (hw : 0 < workers) (dice : Dice) (actions : List Action) :
    (start settings store workers dice).Served actions := by
  let first := start settings store workers dice
  let r := first.run actions
  let L := r.server.ledger
  have hfirst : first.server.ledger.Serves := Ledger.serves_start hs hw
  have hserves : L.Serves := serves_run hfirst actions
  have hsettings : L.settings = settings := settings_run first actions
  have hzero : first.server.AccountsFor store := .nil
  refine {
    replays := accountsFor_run hzero actions
    clients_nodup := hserves.kept.clients_nodup
    streams_nodup := (List.nodup_append.mp hserves.kept.streams_nodup).1
    answered_accepted := hserves.held.answered
    delivered_prefix := hserves.delivered.sent
    delivered_stranger := fun i hi => (hserves.delivered.stranger i hi).1
    answers_prefix := ?_, answers_end := ?_, delivered_end := ?_, delivered_eq := ?_ }
  · intro L h hh
    have hp := hserves.ordered.answers_prefix hserves.kept hh
    rw [hsettings] at hp
    exact hp.trans (Ledger.requests_prefix h _ (L.bytesRead_prefix _))
  · intro L h hh hup hdone later
    have hlater := serves_run hserves later
    have hposted := r.posted_prefix_run later
    have hanswered := r.answered_prefix_run later
    have hh' : h ∈ (r.run later).server.ledger.accepted := by
      obtain ⟨hm, -⟩ := List.mem_filter.mp hup
      obtain ⟨p, hp, he⟩ := List.mem_map.mp hm
      have hacc := hlater.kept.posted_accepted p (hposted.subset hp)
      rw [he] at hacc
      exact hacc
    exact hserves.ordered.answers_eq_of_prefix hserves.kept hlater.ordered hlater.kept hh hh' hup
      hdone ((hposted.map _).filter _) (hanswered.filter _)
  · intro L h hh hnone later
    refine not_live_run ?_ later
    by_contra hl
    exact (hserves.delivered.live h hh (by simpa using hl)).2 hnone
  · intro _ hregular hhard h hh hopen
    have hopen : (L.traffic h.stream).clientOpen = true := hopen
    have hnew : first.server.ledger.Spared := by
      intro _ x hx
      exact absurd hx List.not_mem_nil
    have hspared : L.Spared := spared_run hnew hfirst hregular
    cases hup : (L.traffic h.stream).hungUp with
    | true => exact (hspared hhard h hh hopen hup).1
    | false => exact (hserves.delivered.live h hh (by simp [Traffic.live, hopen, hup])).1

/-- What happens in `crossed`: two clients' requests are read and applied in turns. The second
payload of the first client is no request. -/
def crossing : List Action :=
  [.connect, .connect, .accept, .accept,
    .send 0 (Frame.encode [5, 97] ++ Frame.encode [255] ++ Frame.encode [6, 97]),
    .send 1 (Frame.encode [5, 98]), .read 0, .read 1, .read 0, .read 1, .read 0, .read 0, .read 0,
    .read 0, .pull 0, .pull 1, .apply 1, .apply 0, .letGo 0, .pull 0, .apply 0, .letGo 0, .pull 0,
    .apply 0]

/-- A run that serves two clients. -/
def crossed : Scene :=
  (start {} (.empty 2 9 .single .fifo ⟨fun _ => 0, 0⟩) 2 ⟨id, 0⟩).run crossing

/-- The client gets the response to its first request only, though its third is applied too. -/
theorem served_in_order_two_clients :
    Selection.sticky = .sticky ∧ 0 < 2 ∧ crossed.server.hard = false ∧
      (crossed.server.ledger.traffic 0).clientOpen = true ∧
      crossed.server.ledger.responses ⟨0⟩ = [some [0], none, some [0, 0, 0, 0, 0, 0, 0, 0, 0]] ∧
        crossed.server.ledger.delivered 0 = [0] := by
  have hacc : (⟨⟨0⟩, 0⟩ : Hold) ∈ crossed.server.ledger.accepted := by
    have hall : (crossed.server.ledger.accepted.any fun h => h.client = ⟨0⟩ && h.stream = 0) =
        true := by decide +kernel
    obtain ⟨⟨c, i⟩, hm, he⟩ := List.any_eq_true.mp hall
    obtain ⟨rfl, rfl⟩ : c = ⟨0⟩ ∧ i = 0 := by simpa using he
    exact hm
  have hhard : crossed.server.hard = false := by decide +kernel
  have hopen : (crossed.server.ledger.traffic 0).clientOpen = true := by decide +kernel
  have hresp : crossed.server.ledger.responses ⟨0⟩ =
      [some [0], none, some [0, 0, 0, 0, 0, 0, 0, 0, 0]] := by decide +kernel
  have hregular : (start {} (.empty 2 9 .single .fifo ⟨fun _ => 0, 0⟩) 2 ⟨id, 0⟩).Regular
      crossing := by
    simp only [crossing, Regular, Ledger.Allows, and_self]
  have hd := (served_in_order {} rfl (.empty 2 9 .single .fifo ⟨fun _ => 0, 0⟩) 2
    (by decide) ⟨id, 0⟩ crossing).delivered_eq hregular hhard ⟨⟨0⟩, 0⟩ hacc hopen
  refine ⟨rfl, by decide, hhard, hopen, hresp, hd.trans ?_⟩
  exact congrArg replies hresp

end Scene

end FileDepot
