import Mathlib.Data.List.Nodup
import FileDepot.Proofs.Server.Ledger

/-! # What is posted for a connection

The messages of a connection are the frames of the bytes that have been read from it, in their
order, and one hang-up once it has been reaped. This holds between any two actions of a run,
whatever happens to other connections. -/

namespace FileDepot

/-- What a pipe gives comes next after what it has given. -/
theorem Pipe.take_spec {p up : Pipe} {bytes : Bytes} {n : Nat} (h : p.take n = (bytes, up)) :
    bytes.length ≤ n ∧ up.past = p.past ++ bytes ∧ up.bytes = p.bytes ∧
      (p.taken ≤ p.bytes.length → up.taken ≤ up.bytes.length) := by
  obtain ⟨hb, rfl⟩ := Prod.mk.inj h
  rw [hb]
  have hpast : (p.bytes.drop p.taken).take bytes.length = bytes := by
    rw [← hb, unread, List.length_take, ← List.take_take, List.take_length]
  have hn : bytes.length ≤ n := hb ▸ List.length_take_le ..
  have hl : bytes.length ≤ p.bytes.length - p.taken := by
    rw [← hb, unread, List.length_take, List.length_drop]
    exact Nat.min_le_right ..
  refine ⟨hn, ?_, rfl, fun hle => ?_⟩
  · rw [past, past, List.take_add, hpast]
  · simp only
    omega

/-- The requests in some bytes from a connection: one for each whole frame, up to a length over the
limit. -/
def Hold.requests (h : Hold) (limit : Nat) (bytes : Bytes) : List Message :=
  (Frame.parse (Frame.excess? limit) bytes).payloads.map h.request

namespace Ledger

/-- The frames in some bytes, as far as the limit on messages lets them be read. -/
def frames (L : Ledger) (bytes : Bytes) : Parsed :=
  Frame.parse (Frame.refusal? L.settings.maxMessage) bytes

/-- The messages due for a connection: its requests, and a hang-up once the receiver has reaped
it. -/
def due (L : Ledger) (h : Hold) : List Message :=
  (L.frames (L.bytesRead h.stream)).payloads.map h.request ++
    if h.client ∈ L.connections.map Connection.id then [] else [h.hangUp]

/-- What holds of the receiver's side between any two actions of a run. -/
structure Kept (L : Ledger) : Prop where
  clients_eq : L.accepted.map Hold.client = (List.range L.nextId).map ClientId.mk
  streams_nodup : (L.accepted.map Hold.stream ++ L.waiting).Nodup
  stream_lt : ∀ i ∈ L.accepted.map Hold.stream ++ L.waiting, i < L.streams
  taken_le : ∀ i, (L.traffic i).up.taken ≤ (L.traffic i).up.bytes.length
  unread : ∀ i, i ∉ L.accepted.map Hold.stream → L.bytesRead i = []
  absorbed : ∀ i, (L.frames (L.bytesRead i)).absorbed = (L.bytesRead i).length
  connections_nodup : (L.connections.map Connection.id).Nodup
  connection_accepted : ∀ k ∈ L.connections, k.hold ∈ L.accepted
  following : ∀ k ∈ L.connections, k.dead = false → ∃ parsed : Parsed,
    (∀ e ∈ parsed.fault, e.panics = true ∧ L.fallen = true) ∧
      FrameReader.Follows L.settings.maxMessage [] (L.bytesRead k.stream) parsed k.reader
  posted_accepted : ∀ p ∈ L.posted, p.2.hold ∈ L.accepted
  posts_eq : ∀ h ∈ L.accepted, L.posts h.client = L.due h

variable {L L' : Ledger} {a : Action}

/-! ## Which connection is which -/

theorem Kept.clients_nodup (h : L.Kept) : (L.accepted.map Hold.client).Nodup := by
  rw [h.clients_eq]
  exact List.nodup_range.map fun _ _ he => ClientId.mk.inj he

theorem Kept.eq_of_client (h : L.Kept) {x y : Hold} (hx : x ∈ L.accepted) (hy : y ∈ L.accepted)
    (he : x.client = y.client) : x = y :=
  List.inj_on_of_nodup_map h.clients_nodup hx hy he

theorem Kept.eq_of_stream (h : L.Kept) {x y : Hold} (hx : x ∈ L.accepted) (hy : y ∈ L.accepted)
    (he : x.stream = y.stream) : x = y :=
  List.inj_on_of_nodup_map (List.nodup_append.mp h.streams_nodup).1 hx hy he

theorem Kept.client_lt (h : L.Kept) {x : Hold} (hx : x ∈ L.accepted) :
    x.client.number < L.nextId := by
  have hm : x.client ∈ (List.range L.nextId).map ClientId.mk :=
    h.clients_eq ▸ List.mem_map_of_mem hx
  obtain ⟨n, hn, he⟩ := List.mem_map.mp hm
  exact he ▸ List.mem_range.mp hn

theorem Kept.accepted_lt (h : L.Kept) {x : Hold} (hx : x ∈ L.accepted) : x.stream < L.streams :=
  h.stream_lt _ (List.mem_append_left _ (List.mem_map_of_mem hx))

theorem Kept.stream_not_mem (h : L.Kept) {i : StreamId} {waiting : List StreamId}
    (hw : L.waiting = i :: waiting) : i ∉ L.accepted.map Hold.stream := by
  have hn := h.streams_nodup
  rw [hw] at hn
  exact fun hi => (List.nodup_append.mp hn).2.2 i hi i (by simp) rfl

theorem Kept.client_not_mem (h : L.Kept) : ⟨L.nextId⟩ ∉ L.accepted.map Hold.client := by
  intro hm
  obtain ⟨x, hx, he⟩ := List.mem_map.mp hm
  have hlt := h.client_lt hx
  rw [he] at hlt
  exact Nat.lt_irrefl _ hlt

/-- Nothing is posted for a client that has not been accepted. -/
theorem Kept.posts_eq_nil (h : L.Kept) {c : ClientId} (hc : c ∉ L.accepted.map Hold.client) :
    L.posts c = [] := by
  rw [posts, List.filter_eq_nil_iff]
  intro m hm he
  obtain ⟨p, hp, rfl⟩ := List.mem_map.mp hm
  exact hc (List.mem_map.mpr ⟨p.2.hold, h.posted_accepted p hp, of_decide_eq_true he⟩)

/-! ## What a step keeps -/

/-- Workers, answers and all of the streams but what has been read are not the receiver's. -/
theorem Kept.stir (h : L.Kept) {traffic : StreamId → Traffic} (hard : Bool)
    (workers : List Worker) (answered : List (Message × Option Bytes))
    (htaken : ∀ i, (traffic i).up.taken ≤ (traffic i).up.bytes.length)
    (hread : ∀ i, (traffic i).up.past = L.bytesRead i) :
    Kept { L with hard, traffic, workers, answered } := by
  have hr : Ledger.bytesRead { L with hard, traffic, workers, answered } = L.bytesRead :=
    funext hread
  refine ⟨h.clients_eq, h.streams_nodup, h.stream_lt, htaken, ?_, ?_, h.connections_nodup,
    h.connection_accepted, ?_, h.posted_accepted, ?_⟩
  · rw [hr]
    exact h.unread
  · rw [hr]
    exact h.absorbed
  · rw [hr]
    exact h.following
  · intro x hx
    rw [due, hr]
    exact h.posts_eq x hx

theorem up_onStream {c : Traffic → Traffic} (hc : ∀ l, (c l).up = l.up) (i j : StreamId) :
    ((L.onStream i c).traffic j).up = (L.traffic j).up := by
  rcases L.traffic_onStream i j c with hj | ⟨-, hj⟩
  · rw [hj]
  · rw [hj, hc]

theorem Kept.of_up (h : L.Kept) {traffic : StreamId → Traffic} (hard : Bool)
    (workers : List Worker) (answered : List (Message × Option Bytes))
    (hup : ∀ i, (traffic i).up = (L.traffic i).up) :
    Kept { L with hard, traffic, workers, answered } :=
  h.stir hard workers answered (fun i => hup i ▸ h.taken_le i) fun i => congrArg Pipe.past (hup i)

/-- What a client sends is not read yet. -/
theorem Kept.bytesRead_send (h : L.Kept) (i : StreamId) (bytes : Bytes) :
    (L.onStream i fun l => { l with up := l.up.send bytes }).bytesRead = L.bytesRead := by
  funext j
  simp only [bytesRead, onStream]
  split
  · exact List.take_append_of_le_length (h.taken_le j)
  · rfl

theorem Kept.send (h : L.Kept) (i : StreamId) (bytes : Bytes) :
    (L.onStream i fun l => { l with up := l.up.send bytes }).Kept := by
  refine h.stir L.hard L.workers L.answered (fun j => ?_) (congrFun (h.bytesRead_send i bytes))
  split
  · simp only [Pipe.send, List.length_append]
    exact Nat.le_add_right_of_le (h.taken_le j)
  · exact h.taken_le j

/-- Connections may change in everything but their holds, and none comes alive. -/
theorem Kept.mark (h : L.Kept) {cs : List Connection}
    (hh : cs.map Connection.hold = L.connections.map Connection.hold)
    (hd : ∀ k ∈ cs, k.dead = false → k ∈ L.connections) :
    Kept { L with connections := cs } := by
  have hids : cs.map Connection.id = L.connections.map Connection.id := by
    have hc := congrArg (List.map Hold.client) hh
    rwa [List.map_map, List.map_map] at hc
  refine ⟨h.clients_eq, h.streams_nodup, h.stream_lt, h.taken_le, h.unread, h.absorbed,
    hids ▸ h.connections_nodup, ?_, ?_, h.posted_accepted, ?_⟩
  · intro k hk
    have hm : k.hold ∈ L.connections.map Connection.hold := hh ▸ List.mem_map_of_mem hk
    obtain ⟨k', hk', he⟩ := List.mem_map.mp hm
    exact he ▸ h.connection_accepted k' hk'
  · intro k hk hdead
    exact h.following k (hd k hk hdead) hdead
  · intro x hx
    have hp := h.posts_eq x hx
    rw [due, ← hids] at hp
    exact hp

theorem Kept.connect (h : L.Kept) :
    Kept { L with streams := L.streams + 1, waiting := L.waiting ++ [L.streams] } := by
  refine ⟨h.clients_eq, ?_, ?_, h.taken_le, h.unread, h.absorbed, h.connections_nodup,
    h.connection_accepted, h.following, h.posted_accepted, h.posts_eq⟩
  · rw [← List.append_assoc, List.nodup_append]
    refine ⟨h.streams_nodup, by simp, ?_⟩
    intro i hi j hj he
    rw [he, List.mem_singleton.mp hj] at hi
    exact Nat.lt_irrefl _ (h.stream_lt _ hi)
  · intro i hi
    rw [← List.append_assoc] at hi
    rcases List.mem_append.mp hi with hi | hi
    · exact Nat.lt_succ_of_lt (h.stream_lt i hi)
    · rw [List.mem_singleton.mp hi]
      exact Nat.lt_succ_self _

theorem Kept.turnAway (h : L.Kept) {i : StreamId} {waiting : List StreamId}
    (hw : L.waiting = i :: waiting) : Kept { L with waiting } := by
  have hsub : (L.accepted.map Hold.stream ++ waiting).Sublist
      (L.accepted.map Hold.stream ++ L.waiting) := by
    rw [hw]
    exact (List.sublist_cons_self ..).append_left _
  exact ⟨h.clients_eq, h.streams_nodup.sublist hsub, fun j hj => h.stream_lt j (hsub.subset hj),
    h.taken_le, h.unread, h.absorbed, h.connections_nodup, h.connection_accepted, h.following,
    h.posted_accepted, h.posts_eq⟩

theorem frames_nil (L : Ledger) : L.frames [] = {} :=
  Frame.parse_of_lt (by decide)

/-- The reader of a new connection follows a stream of which nothing has been read. -/
theorem Kept.accept (h : L.Kept) {waiting : List StreamId} {c : Connection}
    (hw : L.waiting = c.stream :: waiting) (hid : c.id = ⟨L.nextId⟩)
    (hr : c.reader = { limit := L.settings.maxMessage }) :
    Kept { L with
      waiting
      connections := L.connections ++ [c]
      nextId := L.nextId + 1
      accepted := L.accepted ++ [c.hold] } := by
  have hstreams : (L.accepted ++ [c.hold]).map Hold.stream ++ waiting =
      L.accepted.map Hold.stream ++ L.waiting := by
    rw [hw]
    simp [Connection.hold]
  have hread : L.bytesRead c.stream = [] := h.unread _ (h.stream_not_mem hw)
  have hfresh : c.id ∉ L.accepted.map Hold.client := hid ▸ h.client_not_mem
  have hother : ∀ x ∈ L.accepted, x.client ≠ c.id :=
    fun x hx he => hfresh (List.mem_map.mpr ⟨x, hx, he⟩)
  refine ⟨?_, hstreams ▸ h.streams_nodup, ?_, h.taken_le, ?_, h.absorbed, ?_, ?_, ?_,
    fun p hp => List.mem_append_left _ (h.posted_accepted p hp), ?_⟩
  · simp [h.clients_eq, List.range_succ, Connection.hold, hid]
  · rw [hstreams]
    exact h.stream_lt
  · intro j hj
    rw [List.map_append, List.mem_append, not_or] at hj
    exact h.unread j hj.1
  · rw [List.map_append, List.nodup_append]
    refine ⟨h.connections_nodup, by simp, ?_⟩
    intro d hd e he hde
    obtain ⟨k, hk, rfl⟩ := List.mem_map.mp hd
    rw [List.map_singleton, List.mem_singleton] at he
    exact hother k.hold (h.connection_accepted k hk) (hde.trans he)
  · intro k hk
    rcases List.mem_append.mp hk with hk | hk
    · exact List.mem_append_left _ (h.connection_accepted k hk)
    · rw [List.mem_singleton.mp hk]
      exact List.mem_append_right _ (by simp)
  · intro k hk hd
    rcases List.mem_append.mp hk with hk | hk
    · exact h.following k hk hd
    · obtain rfl := List.mem_singleton.mp hk
      have hf := FrameReader.follows_nil (r := k.reader) (hr ▸ Nat.zero_lt_succ _)
      rw [hr] at hf
      exact ⟨{}, by simp, hr ▸ hread.symm ▸ hf⟩
  · intro x hx
    rcases List.mem_append.mp hx with hx | hx
    · have hp := h.posts_eq x hx
      have hne := hother x hx
      simp only [due, List.map_append, List.map_singleton, List.mem_append, List.mem_singleton, hne,
        or_false] at hp ⊢
      exact hp
    · obtain rfl := List.mem_singleton.mp hx
      have hp := h.posts_eq_nil hfresh
      have hin : c.hold.client ∈ (L.connections ++ [c]).map Connection.id := by
        simp [Connection.hold]
      rw [due, if_pos hin, List.append_nil]
      simp only [Ledger.bytesRead] at hread ⊢
      rw [Connection.hold, hread, frames_nil]
      exact hp

/-! ### Posting -/

theorem posts_post (L : Ledger) (w : Nat) (ms : List Message) (c : ClientId) :
    (L.post w ms).posts c = L.posts c ++ ms.filter (·.sender = c) := by
  rw [posts, posts, ← List.filter_append, post]
  simp [List.map_map, Function.comp_def]

theorem posts_post_own {ms : List Message} {c : ClientId} (hm : ∀ m ∈ ms, m.sender = c) (w : Nat) :
    (L.post w ms).posts c = L.posts c ++ ms := by
  rw [posts_post, List.filter_eq_self.mpr]
  exact fun m h => decide_eq_true (hm m h)

theorem posts_post_other {ms : List Message} {c : ClientId} (hm : ∀ m ∈ ms, m.sender ≠ c)
    (w : Nat) : (L.post w ms).posts c = L.posts c := by
  rw [posts_post, List.filter_eq_nil_iff.mpr, List.append_nil]
  exact fun m h he => hm m h (of_decide_eq_true he)

/-- A connection leaves the list, and its hang-up is posted. -/
theorem Kept.reap (h : L.Kept) {k : Nat} {c : Connection} (hk : L.connections[k]? = some c)
    (w : Nat) :
    ({ L with connections := L.connections.eraseIdx k }.post w [c.hold.hangUp]).Kept := by
  have hperm : (c :: L.connections.eraseIdx k).Perm L.connections := cons_eraseIdx_perm hk
  have hids := hperm.map Connection.id
  obtain ⟨hnot, hnodup⟩ : c.id ∉ (L.connections.eraseIdx k).map Connection.id ∧
      ((L.connections.eraseIdx k).map Connection.id).Nodup :=
    List.nodup_cons.mp (hids.nodup_iff.mpr h.connections_nodup)
  have hsub : ∀ c' ∈ L.connections.eraseIdx k, c' ∈ L.connections :=
    fun c' hc' => hperm.subset (List.mem_cons_of_mem _ hc')
  have hacc : c.hold ∈ L.accepted := h.connection_accepted c (hperm.subset (by simp))
  refine ⟨h.clients_eq, h.streams_nodup, h.stream_lt, h.taken_le, h.unread, h.absorbed, hnodup,
    fun c' hc' => h.connection_accepted c' (hsub c' hc'),
    fun c' hc' => h.following c' (hsub c' hc'), ?_, ?_⟩
  · intro p hp
    rcases List.mem_append.mp hp with hp | hp
    · exact h.posted_accepted p hp
    · obtain rfl : p = (w, c.hold.hangUp) := by simpa using hp
      exact hacc
  · intro x hx
    have hp := h.posts_eq x hx
    have hbefore := hids.mem_iff (a := x.client)
    rw [List.map_cons, List.mem_cons] at hbefore
    -- The hang-up is due for the one connection that has left; the others are as they were.
    by_cases he : x.client = c.id
    · obtain rfl := h.eq_of_client hx hacc he
      have hhere : c.hold.client ∈ L.connections.map Connection.id := hbefore.mp (.inl rfl)
      have hgone : c.hold.client ∉ (L.connections.eraseIdx k).map Connection.id := hnot
      rw [due, if_pos hhere, List.append_nil] at hp
      rw [posts_post_own (by simp [Hold.hangUp])]
      exact (congrArg (· ++ [c.hold.hangUp]) hp).trans (congrArg _ (if_neg hgone).symm)
    · have hown : c.hold.client ≠ x.client := Ne.symm he
      rw [posts_post_other (by simpa [Hold.hangUp] using hown)]
      simp only [due, ← hbefore, he, false_or] at hp
      exact hp

/-! ### Reading -/

section Listen

variable {k w : Nat} {c : Connection} {bytes : Bytes} {up : Pipe}

theorem map_id_listen (hk : L.connections[k]? = some c) :
    (L.listen k c bytes up w).connections.map Connection.id = L.connections.map Connection.id :=
  map_set_eq hk rfl

/-- Only the bytes read from this connection's stream are more than before. -/
theorem Kept.bytesRead_listen (h : L.Kept) (hc : c ∈ L.connections)
    (ht : (L.traffic c.stream).up.take c.reader.wanted = (bytes, up)) (i : StreamId) :
    (L.listen k c bytes up w).bytesRead i =
      if i = c.stream then L.bytesRead c.stream ++ bytes else L.bytesRead i := by
  have hin : c.stream < L.streams := h.accepted_lt (h.connection_accepted c hc)
  obtain ⟨-, hpast, -, -⟩ := Pipe.take_spec ht
  by_cases hi : i = c.stream
  · subst hi
    simpa [bytesRead, listen, hear, post, onStream, onWorker, hin] using hpast
  · simp [bytesRead, listen, hear, post, onStream, onWorker, hi]

/-- Without a panic, no reader of a connection that lives has refused anything. -/
theorem Kept.going (h : L.Kept) (hf : L.fallen = false) (hc : c ∈ L.connections)
    (hd : c.dead = false) : ∃ parsed : Parsed, parsed.fault = none ∧
      FrameReader.Follows L.settings.maxMessage [] (L.bytesRead c.stream) parsed c.reader := by
  obtain ⟨parsed, hpanics, hp⟩ := h.following c hc hd
  refine ⟨parsed, Option.eq_none_iff_forall_not_mem.mpr fun e he => ?_, hp⟩
  exact absurd (hpanics e he).2 (by simp [hf])

/-- The reader of a connection that lives follows its stream by what it is offered. -/
theorem Kept.follows_offer (h : L.Kept) (hf : L.fallen = false) (hc : c ∈ L.connections)
    (hd : c.dead = false) (ht : (L.traffic c.stream).up.take c.reader.wanted = (bytes, up)) :
    ∃ later, FrameReader.Follows L.settings.maxMessage [] (L.bytesRead c.stream ++ bytes) later
        (c.reader.offer bytes).2 ∧
      L.frames (L.bytesRead c.stream ++ bytes) = later ∧
      later.payloads = (L.frames (L.bytesRead c.stream)).payloads ++
        FrameReader.completed (c.reader.offer bytes).1 ∧
      later.absorbed = (L.bytesRead c.stream ++ bytes).length ∧
      later.fault = FrameReader.refused? (c.reader.offer bytes).1 := by
  obtain ⟨parsed, hfault, hp⟩ := h.going hf hc hd
  obtain ⟨later, hl, hpayloads, habsorbed, hlater⟩ := hp.offer hfault (Pipe.take_spec ht).1
  have hframes : L.frames (L.bytesRead c.stream) = parsed := hp.eq_parse.symm
  exact ⟨later, hl, hl.eq_parse.symm, hframes ▸ hpayloads, habsorbed, hlater⟩

theorem Kept.following_listen (h : L.Kept) (hf : L.fallen = false)
    (hk : L.connections[k]? = some c) (hd : c.dead = false)
    (ht : (L.traffic c.stream).up.take c.reader.wanted = (bytes, up)) {c' : Connection}
    (hc' : c' ∈ (L.listen k c bytes up w).connections) (hd' : c'.dead = false) :
    ∃ parsed : Parsed,
      (∀ e ∈ parsed.fault, e.panics = true ∧ (L.listen k c bytes up w).fallen = true) ∧
        FrameReader.Follows L.settings.maxMessage []
          ((L.listen k c bytes up w).bytesRead c'.stream) parsed c'.reader := by
  obtain ⟨hlt, hget⟩ := List.getElem?_eq_some_iff.mp hk
  have hc : c ∈ L.connections := hget ▸ List.getElem_mem hlt
  rw [h.bytesRead_listen hc ht]
  by_cases he : c'.id = c.id
  · -- Connections have ids of their own, so this is the one that has read.
    have hnew : c.after (c.reader.offer bytes) ∈ (L.listen k c bytes up w).connections :=
      List.mem_set hlt _
    have hnodup : ((L.listen k c bytes up w).connections.map Connection.id).Nodup :=
      map_id_listen hk ▸ h.connections_nodup
    have hstream : (c.after (c.reader.offer bytes)).stream = c.stream := rfl
    obtain rfl := List.inj_on_of_nodup_map hnodup hc' hnew he
    obtain ⟨later, hl, -, -, -, hfault⟩ := h.follows_offer hf hc hd ht
    rw [if_pos hstream]
    refine ⟨later, fun e he => ?_, hl⟩
    have hpanics := Connection.dead_after.mp hd' e (hfault ▸ he)
    exact ⟨hpanics, (Option.any_eq_true ..).mpr ⟨e, hfault ▸ he, hpanics⟩⟩
  · have hm : c' ∈ L.connections :=
      (List.mem_or_eq_of_mem_set hc').resolve_right fun hn => he (hn ▸ rfl)
    have hne : c'.stream ≠ c.stream := fun hs =>
      he (congrArg Hold.client
        (h.eq_of_stream (h.connection_accepted c' hm) (h.connection_accepted c hc) hs))
    rw [if_neg hne]
    obtain ⟨parsed, hfault, hp⟩ := h.going hf hm hd'
    exact ⟨parsed, by simp [hfault], hp⟩

theorem Kept.posts_listen (h : L.Kept) (hf : L.fallen = false)
    (hk : L.connections[k]? = some c) (hd : c.dead = false)
    (ht : (L.traffic c.stream).up.take c.reader.wanted = (bytes, up)) {x : Hold}
    (hx : x ∈ L.accepted) :
    (L.listen k c bytes up w).posts x.client = (L.listen k c bytes up w).due x := by
  have hc : c ∈ L.connections := List.mem_of_getElem? hk
  have hp := h.posts_eq x hx
  rw [due, h.bytesRead_listen hc ht]
  simp only [map_id_listen hk]
  by_cases he : x.client = c.id
  · obtain rfl := h.eq_of_client hx (h.connection_accepted c hc) he
    obtain ⟨later, -, hframes, hpayloads, -, -⟩ := h.follows_offer hf hc hd ht
    have hhere : c.hold.client ∈ L.connections.map Connection.id := List.mem_map_of_mem hc
    have hstream : c.hold.stream = c.stream := rfl
    rw [due, if_pos hhere, List.append_nil, hstream] at hp
    rw [listen, posts_post_own (by simp [Hold.request]), if_pos hhere, List.append_nil,
      if_pos hstream]
    have hl : (L.listen k c bytes up w).frames (L.bytesRead c.stream ++ bytes) = later := hframes
    exact (congrArg (· ++ _) hp).trans (by rw [← List.map_append, ← hpayloads, ← hl]; rfl)
  · have hown : c.hold.client ≠ x.client := Ne.symm he
    have hne : x.stream ≠ c.stream :=
      fun hs => he (congrArg Hold.client (h.eq_of_stream hx (h.connection_accepted c hc) hs))
    rw [listen, posts_post_other (by simpa [Hold.request] using fun _ _ => hown), if_neg hne]
    exact hp

theorem Kept.listen (h : L.Kept) (hf : L.fallen = false) (hk : L.connections[k]? = some c)
    (hd : c.dead = false) (ht : (L.traffic c.stream).up.take c.reader.wanted = (bytes, up)) :
    (L.listen k c bytes up w).Kept := by
  have hc : c ∈ L.connections := List.mem_of_getElem? hk
  have hacc := h.connection_accepted c hc
  obtain ⟨-, -, -, htaken⟩ := Pipe.take_spec ht
  refine ⟨h.clients_eq, h.streams_nodup, h.stream_lt, ?_, ?_, ?_,
    map_id_listen hk ▸ h.connections_nodup, ?_,
    fun c' hc' hd' => h.following_listen hf hk hd ht hc' hd', ?_,
    fun x hx => h.posts_listen hf hk hd ht hx⟩
  · intro i
    change ((L.onStream c.stream ({ · with up })).traffic i).up.taken ≤
      ((L.onStream c.stream ({ · with up })).traffic i).up.bytes.length
    rcases L.traffic_onStream c.stream i ({ · with up }) with hi | ⟨-, hi⟩
    · rw [hi]
      exact h.taken_le i
    · rw [hi]
      exact htaken (h.taken_le c.stream)
  · intro i hi
    have hne : i ≠ c.stream := by
      rintro rfl
      exact hi (List.mem_map.mpr ⟨c.hold, hacc, rfl⟩)
    rw [h.bytesRead_listen hc ht, if_neg hne]
    exact h.unread i hi
  · intro i
    rw [h.bytesRead_listen hc ht]
    split
    · obtain ⟨later, -, hframes, -, habsorbed, -⟩ := h.follows_offer hf hc hd ht
      exact (congrArg Parsed.absorbed hframes).trans habsorbed
    · exact h.absorbed i
  · intro c' hc'
    rcases List.mem_or_eq_of_mem_set hc' with hm | rfl
    · exact h.connection_accepted c' hm
    · exact hacc
  · intro p hp
    rcases List.mem_append.mp hp with hp | hp
    · exact h.posted_accepted p hp
    · simp only [List.map_map, List.mem_map, Function.comp_apply] at hp
      obtain ⟨payload, -, rfl⟩ := hp
      exact hacc

/-- A receiver falls when it has read a header that declares a length within the limit which no
buffer can hold. -/
theorem Kept.over_of_listen (h : L.Kept) (hf : L.fallen = false) (hk : L.connections[k]? = some c)
    (hd : c.dead = false) (ht : (L.traffic c.stream).up.take c.reader.wanted = (bytes, up))
    (hfell : (L.listen k c bytes up w).fallen = true) :
    ∃ declared, Bytes.maxSize < declared ∧ declared ≤ L.settings.maxMessage ∧
      (L.frames ((L.listen k c bytes up w).bytesRead c.stream)).fault =
        some (.overCapacity declared) := by
  have hc : c ∈ L.connections := List.mem_of_getElem? hk
  obtain ⟨later, -, hframes, -, -, hfault⟩ := h.follows_offer hf hc hd ht
  obtain ⟨e, he, hpanics⟩ := (Option.any_eq_true ..).mp hfell
  rw [h.bytesRead_listen hc ht, if_pos rfl, hframes, hfault, he]
  have hparse : (L.frames (L.bytesRead c.stream ++ bytes)).fault = some e := by
    rw [hframes, hfault, he]
  obtain ⟨declared, hrefused⟩ := Frame.refusal?_of_parse hparse
  rcases Frame.refusal?_eq_some hrefused with ⟨-, rfl⟩ | ⟨hmax, hle, rfl⟩
  · exact absurd hpanics (by simp [FrameFault.panics])
  · exact ⟨declared, hmax, hle, rfl⟩

end Listen

/-- Only a read makes the receiver fall, and only for a length that no buffer can hold. -/
theorem Kept.over_of_step (h : L.Kept) (hs : L.Step a L') (hf : L.fallen = false)
    (hfell : L'.fallen = true) : ∃ k c declared, a = .read k ∧ L.connections[k]? = some c ∧
      Bytes.maxSize < declared ∧ declared ≤ L.settings.maxMessage ∧
        (L'.frames (L'.bytesRead c.stream)).fault = some (.overCapacity declared) := by
  cases hs with
  | @read k w c bytes up hf hk hd ht =>
      obtain ⟨declared, hover⟩ := h.over_of_listen hf hk hd ht hfell
      exact ⟨k, c, declared, rfl, hk, hover⟩
  | mark | stop | sever | close | cutOff | connect | send | turnAway | accept | reap | pull | answer
  | heed | letGo => exact absurd (hf.symm.trans hfell) (by simp)

/-- Nobody but the receiver reads or posts. -/
theorem Kept.still_of_step (h : L.Kept) (hs : L.Step a L') (ha : a.isReceiver = false) :
    L'.fallen = L.fallen ∧ L'.bytesRead = L.bytesRead ∧ L'.posted = L.posted := by
  have hup : ∀ {i : StreamId} {f : Traffic → Traffic}, (∀ l, (f l).up = l.up) →
      (L.onStream i f).bytesRead = L.bytesRead := fun hf =>
    funext fun j => congrArg Pipe.past (up_onStream hf _ j)
  cases hs with
  | mark | stop | connect | turnAway | pull | heed | letGo => exact ⟨rfl, rfl, rfl⟩
  | send => exact ⟨rfl, h.bytesRead_send _ _, rfl⟩
  | close => exact ⟨rfl, hup (f := Traffic.close) fun _ => rfl, rfl⟩
  | cutOff => exact ⟨rfl, hup (f := Traffic.hangUp) fun _ => rfl, rfl⟩
  | answer => exact ⟨rfl, hup (Traffic.up_answer _), rfl⟩
  | sever | accept | read | reap => cases ha

/-- Every step keeps the receiver's side. -/
theorem Kept.step (h : L.Kept) (hs : L.Step a L') : L'.Kept := by
  cases hs with
  | mark hh hd => exact h.mark hh hd
  | sever htraffic =>
      have hm : Kept { L with connections := L.connections.map ({ · with dead := true }) } := by
        refine h.mark ?_ ?_
        · rw [List.map_map]
          rfl
        · intro k hk hd
          obtain ⟨c, -, rfl⟩ := List.mem_map.mp hk
          exact absurd hd (by simp)
      refine hm.of_up _ _ _ fun i => ?_
      rcases htraffic i with ht | ⟨-, ht⟩
      · rw [ht]
      · rw [ht, Traffic.hangUp]
  | connect => exact h.connect
  | send => exact h.send _ _
  | turnAway hw => exact h.turnAway hw
  | accept hw => exact h.accept (c := { id := _, stream := _, reader := _ }) hw rfl rfl
  | read hf hk hd ht => exact h.listen hf hk hd ht
  | reap hk => exact h.reap hk _
  | answer => exact h.of_up _ _ _ fun i => up_onStream (Traffic.up_answer _) _ i
  | close => exact h.of_up _ _ _ fun i => up_onStream (c := Traffic.close) (fun _ => rfl) _ i
  | cutOff => exact h.of_up _ _ _ fun i => up_onStream (c := Traffic.hangUp) (fun _ => rfl) _ i
  | stop | pull | heed | letGo => exact h.of_up _ _ _ fun _ => rfl

theorem Kept.posts_eq_requests (h : L.Kept) {x : Hold} (hx : x ∈ L.accepted) :
    L.posts x.client = x.requests L.settings.maxMessage (L.bytesRead x.stream) ++
      if x.client ∈ L.connections.map Connection.id then [] else [x.hangUp] := by
  rw [Hold.requests, Frame.payloads_parse_excess? (h.absorbed x.stream)]
  exact h.posts_eq x hx

theorem kept_start (settings : Settings) (workers : Nat) : (start settings workers).Kept where
  clients_eq := rfl
  streams_nodup := List.nodup_nil
  stream_lt _ hi := absurd hi List.not_mem_nil
  taken_le _ := Nat.zero_le _
  unread _ _ := rfl
  absorbed _ := congrArg Parsed.absorbed (frames_nil _)
  connections_nodup := List.nodup_nil
  connection_accepted _ hk := absurd hk List.not_mem_nil
  following _ hk := absurd hk List.not_mem_nil
  posted_accepted _ hp := absurd hp List.not_mem_nil
  posts_eq _ hx := absurd hx List.not_mem_nil

end Ledger

/-- After every run, what has been posted is due. -/
theorem Scene.kept_run (settings : Settings) (store : Store) (workers : Nat) (dice : Dice)
    (actions : List Action) :
    ((start settings store workers dice).run actions).server.ledger.Kept :=
  ledger_run (fun h hs => h.step hs) (Ledger.kept_start settings workers) actions

/-! ## A fallen receiver -/

namespace Scene

/-- Where a buffer can hold whatever the limit allows, the receiver never falls. -/
theorem fallen_run {settings : Settings} (hl : settings.maxMessage ≤ Bytes.maxSize)
    (store : Store) (workers : Nat) (dice : Dice) (actions : List Action) :
    ((start settings store workers dice).run actions).server.fallen = none := by
  have hrun := ledger_run (r := start settings store workers dice)
    (P := fun L => L.Kept ∧ L.settings = settings ∧ L.fallen = false)
    (fun ⟨hkept, hsettings, hf⟩ hs => by
      refine ⟨hkept.step hs, hs.settings_eq.trans hsettings, ?_⟩
      by_contra hfell
      obtain ⟨-, -, declared, -, -, hmax, hle, -⟩ :=
        hkept.over_of_step hs hf (by simpa using hfell)
      rw [hsettings] at hle
      omega)
    ⟨Ledger.kept_start settings workers, rfl, rfl⟩ actions
  simpa [Server.ledger] using hrun.2.2

variable {r : Scene}

/-- One that has fallen stays so, and reads and posts nothing. -/
theorem step_of_fallen (hk : r.server.ledger.Kept) (h : r.server.fallen.isSome = true)
    (a : Action) : (r.step a).server.fallen.isSome = true ∧
      (r.step a).server.ledger.bytesRead = r.server.ledger.bytesRead ∧
      (r.step a).server.ledger.posted = r.server.ledger.posted := by
  have hreceiving : ∀ act, (r.server.receiving act).fallen.isSome = true ∧
      (r.server.receiving act).ledger.bytesRead = r.server.ledger.bytesRead ∧
      (r.server.receiving act).ledger.posted = r.server.ledger.posted := fun act => by
    rw [Server.receiving_of_fallen h]
    exact ⟨h, rfl, rfl⟩
  by_cases ha : a.isReceiver = false
  · obtain ⟨hfallen, hread, hposted⟩ := hk.still_of_step (r.step_ledger a) ha
    exact ⟨hfallen.trans h, hread, hposted⟩
  · cases a with
    | reap | read | accept | sever | failRead => exact hreceiving _
    | forsake =>
        have hl : (r.step .forsake).server.ledger = r.server.ledger := r.server.ledger_forsakeNext
        exact ⟨(congrArg Ledger.fallen hl).trans h, congrArg Ledger.bytesRead hl,
          congrArg Ledger.posted hl⟩
    | failSetup =>
        simp only [step, Server.turnAway]
        cases r.server.waiting with
        | nil => exact ⟨h, rfl, rfl⟩
        | cons i waiting =>
            simp only [Server.ledger_drop]
            exact ⟨h, rfl, rfl⟩
    | connect | send | halfClose | close | receive | closeDoor | stopAll | pull | apply | letGo
    | release | failWrite => exact absurd rfl ha

theorem run_of_fallen (hk : r.server.ledger.Kept) (h : r.server.fallen.isSome = true)
    (actions : List Action) : (r.run actions).server.fallen.isSome = true ∧
      (r.run actions).server.ledger.bytesRead = r.server.ledger.bytesRead ∧
      (r.run actions).server.ledger.posted = r.server.ledger.posted := by
  induction actions generalizing r with
  | nil => exact ⟨h, rfl, rfl⟩
  | cons a actions ih =>
      obtain ⟨hf, hread, hposted⟩ := step_of_fallen hk h a
      obtain ⟨hf', hread', hposted'⟩ := ih (hk.step (r.step_ledger a)) hf
      exact ⟨hf', hread'.trans hread, hposted'.trans hposted⟩

end Scene

end FileDepot
