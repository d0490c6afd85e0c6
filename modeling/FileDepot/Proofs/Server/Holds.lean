import Mathlib.Data.List.Perm.Basic
import FileDepot.Proofs.Server.Interleaving

/-! # Holds on streams

Each connection that the receiver has not let go of and each message in a worker's queue or hand is
one hold on a stream. A stream counts the holds on it, and one on behalf of the clients that wait;
all holds of one client are on one stream, which is no other client's. So the last hold on a stream
is the last of its client. -/

namespace FileDepot

/-! ## One element of a list -/

section Element

variable {α β : Type} {xs : List α} {k : Nat} {x y : α} {f : α → β} {p : α → Bool}

/-- A change of one element that does not show does not show in the list. -/
theorem map_modify_eq {change : α → α} (h : ∀ x, xs[k]? = some x → f (change x) = f x) :
    (xs.modify k change).map f = xs.map f := by
  refine List.ext_getElem? fun i => ?_
  rw [List.getElem?_map, List.getElem?_map, List.getElem?_modify]
  by_cases hi : k = i
  · subst hi
    cases hx : xs[k]? with
    | none => rfl
    | some x => simp [h x hx]
  · simp [hi]

theorem map_set_eq (hk : xs[k]? = some x) (h : f y = f x) : (xs.set k y).map f = xs.map f := by
  have hset : xs.set k y = xs.modify k fun _ => y := by
    rw [List.modify_eq_set_getElem?, hk]
    rfl
  rw [hset]
  refine map_modify_eq fun z hz => ?_
  rw [h, Option.some.inj (hk.symm.trans hz)]

theorem cons_eraseIdx_perm (hk : xs[k]? = some x) : (x :: xs.eraseIdx k).Perm xs := by
  obtain ⟨hlt, rfl⟩ := List.getElem?_eq_some_iff.mp hk
  exact List.getElem_cons_eraseIdx_perm hlt

theorem eq_take_cons_drop (hk : xs[k]? = some x) : xs = xs.take k ++ x :: xs.drop (k + 1) := by
  obtain ⟨hlt, rfl⟩ := List.getElem?_eq_some_iff.mp hk
  rw [List.getElem_cons_drop, List.take_append_drop]

theorem filter_set (hk : xs[k]? = some x) (hx : p x = false) (hy : p y = false) :
    (xs.set k y).filter p = xs.filter p := by
  rw [List.set_eq_take_append_cons_drop, if_pos (List.getElem?_eq_some_iff.mp hk).1]
  conv_rhs => rw [eq_take_cons_drop hk]
  simp [hx, hy]

theorem filter_eraseIdx (hk : xs[k]? = some x) (hx : p x = false) :
    (xs.eraseIdx k).filter p = xs.filter p := by
  rw [List.eraseIdx_eq_take_drop_succ]
  conv_rhs => rw [eq_take_cons_drop hk]
  simp [hx]

end Element

/-! ## Holds -/

/-- A hold on a stream on behalf of its client. -/
structure Hold where
  client : ClientId
  stream : StreamId

def Connection.hold (c : Connection) : Hold :=
  ⟨c.id, c.stream⟩

def Message.hold (m : Message) : Hold :=
  ⟨m.sender, m.stream⟩

/-- The message in a hand. -/
def Hand.messages : Hand → List Message
  | .idle => []
  | .serving m | .served m => [m]

/-- The messages that a worker has and has not let go of. -/
def Worker.messages (w : Worker) : List Message :=
  w.hand.messages ++ w.queue

namespace Server

/-- The messages posted and not let go of. -/
def messages (s : Server) : List Message :=
  s.workers.flatMap Worker.messages

/-- All holds, the receiver's first. -/
def holds (s : Server) : List Hold :=
  s.held.map Connection.hold ++ s.messages.map Message.hold

/-- The receiver holds on to a client, or a message of it is queued or being served. -/
def Busy (s : Server) (c : ClientId) : Prop :=
  ∃ h ∈ s.holds, h.client = c

theorem busy_iff {s : Server} {c : ClientId} :
    s.Busy c ↔ (∃ k ∈ s.held, k.id = c) ∨ ∃ m ∈ s.messages, m.sender = c := by
  simp only [Busy, holds, List.mem_append, List.mem_map]
  constructor
  · rintro ⟨_, ⟨k, hk, rfl⟩ | ⟨m, hm, rfl⟩, he⟩
    · exact .inl ⟨k, hk, he⟩
    · exact .inr ⟨m, hm, he⟩
  · rintro (⟨k, hk, he⟩ | ⟨m, hm, he⟩)
    · exact ⟨k.hold, .inl ⟨k, hk, rfl⟩, he⟩
    · exact ⟨m.hold, .inr ⟨m, hm, rfl⟩, he⟩

theorem held_of_standing {s : Server} (h : s.fallen = none) : s.held = s.connections := by
  rw [held, h]
  rfl

theorem holds_of_standing {s : Server} (h : s.fallen = none) :
    s.holds = s.connections.map Connection.hold ++ s.messages.map Message.hold := by
  rw [holds, held_of_standing h]

theorem busy_of_perm {s t : Server} (h : t.holds.Perm s.holds) (c : ClientId) :
    t.Busy c ↔ s.Busy c := by
  simp only [Busy, h.mem_iff]

end Server

/-! ## Counting -/

/-- The streams count the holds on them and the clients that wait. -/
structure Accounted (streams : List Duplex) (waiting : List StreamId) (holds : List Hold)
    (nextId : Nat) : Prop where
  holders_eq : ∀ i d, streams[i]? = some d →
    d.holders = holds.countP (·.stream = i) + waiting.count i
  waiting_lt : ∀ i ∈ waiting, i < streams.length
  stream_lt : ∀ h ∈ holds, h.stream < streams.length
  client_lt : ∀ h ∈ holds, h.client.number < nextId
  client_eq_iff : ∀ h ∈ holds, ∀ k ∈ holds, h.client = k.client ↔ h.stream = k.stream
  nodup : waiting.Nodup
  apart : ∀ h ∈ holds, h.stream ∉ waiting

namespace Accounted

variable {streams : List Duplex} {waiting : List StreamId} {holds : List Hold} {nextId : Nat}

theorem perm {holds' : List Hold} (h : Accounted streams waiting holds nextId)
    (hp : holds'.Perm holds) : Accounted streams waiting holds' nextId where
  holders_eq i d hd := by
    rw [hp.countP_eq]
    exact h.holders_eq i d hd
  waiting_lt := h.waiting_lt
  stream_lt k hk := h.stream_lt k (hp.mem_iff.mp hk)
  client_lt k hk := h.client_lt k (hp.mem_iff.mp hk)
  client_eq_iff k hk l hl := h.client_eq_iff k (hp.mem_iff.mp hk) l (hp.mem_iff.mp hl)
  nodup := h.nodup
  apart k hk := h.apart k (hp.mem_iff.mp hk)

theorem getElem?_modify_eq_some {i j : StreamId} {change : Duplex → Duplex} {d : Duplex}
    (hd : (streams.modify i change)[j]? = some d) :
    ∃ old, streams[j]? = some old ∧ d = if i = j then change old else old := by
  rw [List.getElem?_modify] at hd
  obtain ⟨old, ho, rfl⟩ := Option.map_eq_some_iff.mp hd
  exact ⟨old, ho, rfl⟩

theorem stir (h : Accounted streams waiting holds nextId) {i : StreamId} {change : Duplex → Duplex}
    (hc : ∀ d, streams[i]? = some d → (change d).holders = d.holders) :
    Accounted (streams.modify i change) waiting holds nextId where
  holders_eq j d hd := by
    obtain ⟨old, ho, rfl⟩ := getElem?_modify_eq_some hd
    rw [← h.holders_eq j old ho]
    split
    · rename_i he
      exact hc old (he ▸ ho)
    · rfl
  waiting_lt := by simpa using h.waiting_lt
  stream_lt := by simpa using h.stream_lt
  client_lt := h.client_lt
  client_eq_iff := h.client_eq_iff
  nodup := h.nodup
  apart := h.apart

/-- A new client waits with a stream of its own. -/
theorem connect (h : Accounted streams waiting holds nextId) :
    Accounted (streams ++ [({} : Duplex)]) (waiting ++ [streams.length]) holds nextId where
  holders_eq j d hd := by
    rw [List.count_append, List.count_singleton]
    by_cases hj : j < streams.length
    · rw [List.getElem?_append_left hj] at hd
      have hne : (streams.length == j) = false := beq_eq_false_iff_ne.mpr (Nat.ne_of_gt hj)
      rw [h.holders_eq j d hd, hne]
      simp
    · have hl : j = streams.length := by
        have hlt := (List.getElem?_eq_some_iff.mp hd).1
        rw [List.length_append, List.length_singleton] at hlt
        exact Nat.le_antisymm (Nat.le_of_lt_succ hlt) (Nat.le_of_not_lt hj)
      subst hl
      have hz : holds.countP (·.stream = streams.length) = 0 := by
        rw [List.countP_eq_zero]
        intro k hk he
        exact Nat.ne_of_lt (h.stream_lt k hk) (of_decide_eq_true he)
      have hw : waiting.count streams.length = 0 :=
        List.count_eq_zero.mpr fun hm => Nat.lt_irrefl _ (h.waiting_lt _ hm)
      simp at hd
      rw [hz, hw, ← hd]
      simp
  waiting_lt i hi := by
    rw [List.length_append, List.length_singleton]
    rcases List.mem_append.mp hi with hi | hi
    · exact Nat.lt_succ_of_lt (h.waiting_lt i hi)
    · rw [List.mem_singleton.mp hi]
      exact Nat.lt_succ_self _
  stream_lt k hk := by
    rw [List.length_append]
    exact Nat.lt_add_right _ (h.stream_lt k hk)
  client_lt := h.client_lt
  client_eq_iff := h.client_eq_iff
  nodup := by
    rw [List.nodup_append]
    refine ⟨h.nodup, by simp, ?_⟩
    intro i hi j hj he
    rw [he, List.mem_singleton.mp hj] at hi
    exact Nat.lt_irrefl _ (h.waiting_lt _ hi)
  apart k hk hm := by
    rcases List.mem_append.mp hm with hm | hm
    · exact h.apart k hk hm
    · exact Nat.ne_of_lt (h.stream_lt k hk) (List.mem_singleton.mp hm)

/-- The first waiting client is accepted: the hold on its stream becomes the receiver's. -/
theorem accept {i : StreamId} (h : Accounted streams (i :: waiting) holds nextId) :
    Accounted streams waiting (⟨⟨nextId⟩, i⟩ :: holds) (nextId + 1) := by
  obtain ⟨hni, hn⟩ := List.nodup_cons.mp h.nodup
  have hfresh : ∀ k ∈ holds, k.client ≠ ⟨nextId⟩ ∧ k.stream ≠ i := by
    intro k hk
    constructor
    · intro he
      have hlt := h.client_lt k hk
      rw [he] at hlt
      exact Nat.lt_irrefl _ hlt
    · intro he
      exact h.apart k hk (by simp [he])
  refine ⟨?_, fun j hj => h.waiting_lt j (by simp [hj]), ?_, ?_, ?_, hn, ?_⟩
  · intro j d hd
    rw [h.holders_eq j d hd, List.countP_cons, List.count_cons]
    by_cases hj : i = j
    · simp [hj]
      omega
    · simp [hj]
  · exact List.forall_mem_cons.mpr ⟨h.waiting_lt i (by simp), h.stream_lt⟩
  · exact List.forall_mem_cons.mpr ⟨Nat.lt_succ_self _,
      fun k hk => Nat.lt_succ_of_lt (h.client_lt k hk)⟩
  · intro k hk l hl
    rcases List.mem_cons.mp hk with rfl | hk
    · rcases List.mem_cons.mp hl with rfl | hl
      · simp
      · obtain ⟨hc, hs⟩ := hfresh l hl
        simp [hc.symm, hs.symm]
    · rcases List.mem_cons.mp hl with rfl | hl
      · obtain ⟨hc, hs⟩ := hfresh k hk
        simp [hc, hs]
      · exact h.client_eq_iff k hk l hl
  · exact List.forall_mem_cons.mpr ⟨hni, fun k hk hm => h.apart k hk (by simp [hm])⟩

theorem turnAway {i : StreamId} (h : Accounted streams (i :: waiting) holds nextId) :
    Accounted (streams.modify i Duplex.drop) waiting holds nextId := by
  obtain ⟨hni, hn⟩ := List.nodup_cons.mp h.nodup
  refine ⟨?_, ?_, by simpa using h.stream_lt, h.client_lt, h.client_eq_iff, hn,
    fun k hk hm => h.apart k hk (by simp [hm])⟩
  · intro j d hd
    obtain ⟨old, ho, rfl⟩ := getElem?_modify_eq_some hd
    have hh := h.holders_eq j old ho
    rw [List.count_cons] at hh
    by_cases hj : i = j
    · simp [hj] at hh ⊢
      simp [Duplex.drop, hh]
    · simp [hj] at hh ⊢
      exact hh
  · intro j hj
    rw [List.length_modify]
    exact h.waiting_lt j (by simp [hj])

/-- One more hold on a stream on behalf of a client that has one. -/
theorem hold {k : Hold} (h : Accounted streams waiting holds nextId) (hk : k ∈ holds) :
    Accounted (streams.modify k.stream Duplex.hold) waiting (k :: holds) nextId := by
  refine ⟨?_, by simpa using h.waiting_lt, ?_, ?_, ?_, h.nodup, ?_⟩
  · intro j d hd
    obtain ⟨old, ho, rfl⟩ := getElem?_modify_eq_some hd
    have hh := h.holders_eq j old ho
    rw [List.countP_cons]
    by_cases hj : k.stream = j
    · simp [hj, Duplex.hold]
      omega
    · simp [hj]
      exact hh
  · rw [List.length_modify]
    exact List.forall_mem_cons.mpr ⟨h.stream_lt k hk, h.stream_lt⟩
  · exact List.forall_mem_cons.mpr ⟨h.client_lt k hk, h.client_lt⟩
  · intro l hl m hm
    have hsub : ∀ l ∈ k :: holds, l ∈ holds := by simp [hk]
    exact h.client_eq_iff l (hsub l hl) m (hsub m hm)
  · exact List.forall_mem_cons.mpr ⟨h.apart k hk, h.apart⟩

theorem letGo {k : Hold} (h : Accounted streams waiting (k :: holds) nextId) :
    Accounted (streams.modify k.stream Duplex.drop) waiting holds nextId := by
  refine ⟨?_, by simpa using h.waiting_lt, ?_, ?_, ?_, h.nodup, ?_⟩
  · intro j d hd
    obtain ⟨old, ho, rfl⟩ := getElem?_modify_eq_some hd
    have hh := h.holders_eq j old ho
    rw [List.countP_cons] at hh
    by_cases hj : k.stream = j
    · simp [hj] at hh ⊢
      simp [Duplex.drop, hh]
    · simp [hj] at hh ⊢
      exact hh
  · rw [List.length_modify]
    exact fun l hl => h.stream_lt l (by simp [hl])
  · exact fun l hl => h.client_lt l (by simp [hl])
  · exact fun l hl m hm => h.client_eq_iff l (by simp [hl]) m (by simp [hm])
  · exact fun l hl => h.apart l (by simp [hl])

/-- A stream is held once just when no other hold is its client's. -/
theorem holders_eq_one_iff {k : Hold} (h : Accounted streams waiting (k :: holds) nextId) :
    streams[k.stream]?.any (·.holders = 1) ↔ ∀ l ∈ holds, l.client ≠ k.client := by
  obtain ⟨d, hd⟩ : ∃ d, streams[k.stream]? = some d :=
    ⟨_, List.getElem?_eq_getElem (h.stream_lt k (by simp))⟩
  have hw : waiting.count k.stream = 0 := List.count_eq_zero.mpr (h.apart k (by simp))
  have hh := h.holders_eq _ d hd
  have hone : (d.holders = 1) ↔ holds.countP (·.stream = k.stream) = 0 := by
    rw [hh, hw, List.countP_cons]
    simp
  have hsame : ∀ l ∈ holds, l.client = k.client ↔ l.stream = k.stream :=
    fun l hl => h.client_eq_iff l (by simp [hl]) k (by simp)
  rw [hd, Option.any_some, decide_eq_true_iff, hone, List.countP_eq_zero]
  constructor
  · intro hz l hl he
    exact hz l hl (by simpa using (hsame l hl).mp he)
  · intro hz l hl he
    exact hz l hl ((hsame l hl).mpr (by simpa using he))

end Accounted

/-! ## Messages on the move -/

namespace Server

variable {s : Server}

theorem messages_onWorker {w : Nat} {x : Worker} (h : s.workers[w]? = some x)
    (change : Worker → Worker) {gained lost : List Message}
    (hp : (lost ++ (change x).messages).Perm (gained ++ x.messages)) :
    (lost ++ (s.onWorker w change).messages).Perm (gained ++ s.messages) := by
  obtain ⟨hlt, hx⟩ := List.getElem?_eq_some_iff.mp h
  obtain ⟨before, y, after, hl, hlen, hm⟩ := List.exists_of_modify change hlt
  obtain rfl : y = x := by
    rw [← hx]
    simp [hl, ← hlen]
  have hrest : ∀ (extra : List Message) (z : Worker),
      (extra ++ (before ++ z :: after).flatMap Worker.messages).Perm
        ((extra ++ z.messages) ++ (before.flatMap Worker.messages ++ after.flatMap Worker.messages)) := by
    intro extra z
    rw [List.flatMap_append, List.flatMap_cons, List.append_assoc]
    exact (List.perm_append_comm_assoc ..).append_left extra
  rw [messages, messages, onWorker]
  rw [hm, hl]
  exact ((hrest lost (change y)).trans (hp.append_right _)).trans (hrest gained y).symm

/-- A message that a worker moves stays a message of the server. -/
theorem messages_onWorker_same {w : Nat} {x : Worker} (h : s.workers[w]? = some x)
    (change : Worker → Worker) (hp : (change x).messages = x.messages) :
    (s.onWorker w change).messages.Perm s.messages := by
  have hn : ([] ++ (change x).messages).Perm ([] ++ x.messages) := by rw [hp]
  exact messages_onWorker h change hn

theorem messages_post {w : Nat} (hw : w < s.workers.length) (m : Message) :
    (s.post w m).messages.Perm (m :: s.messages) := by
  have hx := List.getElem?_eq_getElem hw
  have hp : ([] ++ Worker.messages { s.workers[w] with queue := s.workers[w].queue ++ [m] }).Perm
      ([m] ++ s.workers[w].messages) := by
    rw [List.nil_append, Worker.messages, ← List.append_assoc]
    exact List.perm_append_singleton m _
  exact messages_onWorker hx (fun x => { x with queue := x.queue ++ [m] }) hp

theorem length_workers_onWorker (s : Server) (w : Nat) (change : Worker → Worker) :
    (s.onWorker w change).workers.length = s.workers.length :=
  List.length_modify ..

theorem dispatch_eq_post (hw : 0 < s.workers.length) (m : Message) :
    ∃ w dice, w < s.workers.length ∧ s.dispatch m = { s with dice }.post w m := by
  unfold dispatch workerFor
  cases s.settings.selection with
  | sticky => exact ⟨_, s.dice, Nat.mod_lt _ hw, rfl⟩
  | random => exact ⟨_, _, Nat.mod_lt _ hw, rfl⟩

/-- What is made of bytes from a connection: at most one request is dispatched, or the receiver
falls. -/
theorem offer_cases (s : Server) (c : Connection) (bytes : Bytes) :
    (s.offer c bytes).1.hold = c.hold ∧ ((s.offer c bytes).2 = s ∨ (s.offer c bytes).2 = s.fall ∨
      ∃ payload, (s.offer c bytes).2 =
        (s.onStream c.stream Duplex.hold).dispatch ⟨c.id, c.stream, .request payload⟩) := by
  unfold offer
  rcases c.reader.offer bytes with ⟨fault | ⟨consumed, missing | payload⟩, reader⟩
  · cases fault with
    | tooLarge => exact ⟨rfl, .inl rfl⟩
    | overCapacity | overrun => exact ⟨rfl, .inr (.inl rfl)⟩
  · exact ⟨rfl, .inl rfl⟩
  · exact ⟨rfl, .inr (.inr ⟨payload, rfl⟩)⟩

/-- What reading from a connection does: its stream is read, and something may be made of the
bytes. -/
theorem read_cases (s : Server) (c : Connection) :
    (s.read c).1.hold = c.hold ∧ ((s.read c).2 = s ∨ ∃ change : Duplex → Duplex,
      (∀ d, (change d).holders = d.holders) ∧ ((s.read c).2 = s.onStream c.stream change ∨
        (s.read c).2 = (s.onStream c.stream change).fall ∨
        ∃ payload, (s.read c).2 = ((s.onStream c.stream change).onStream c.stream
          Duplex.hold).dispatch ⟨c.id, c.stream, .request payload⟩)) := by
  unfold read
  cases s.stream? c.stream with
  | none => exact ⟨rfl, .inl rfl⟩
  | some d =>
      have hc : ∀ e : Duplex, { e with up := (d.up.take c.reader.wanted).2 }.holders = e.holders :=
        fun _ => rfl
      simp only
      cases (d.up.take c.reader.wanted).1.isEmpty with
      | true => exact ⟨rfl, .inr ⟨_, hc, .inl rfl⟩⟩
      | false =>
          obtain ⟨hhold, hcases⟩ := (s.onStream c.stream
            ({ · with up := (d.up.take c.reader.wanted).2 })).offer_cases c
              (d.up.take c.reader.wanted).1
          exact ⟨hhold, .inr ⟨_, hc, hcases⟩⟩

end Server

end FileDepot
