import FileDepot.Proofs.Frame.Chunks
import FileDepot.Proofs.Wire.Requests
import FileDepot.Proofs.Wire.Responses

/-! # Conversations

A client makes calls over one connection, one after the other, while others change the store in
between. Each call travels as a frame cut into any chunks, is decoded and carried out, and its
response is read from the stream of all responses. -/

namespace FileDepot

/-! ## A connection -/

/-- A connection as it is between two calls: the store behind it, the reader of its frames, the
bytes of responses that have not been read, and whether the server still listens. -/
structure Line where
  store : Store
  reader : FrameReader
  unread : Bytes := []
  up : Bool := true

namespace Line

/-- Carries out a payload and sends the response. One that is no request ends the conversation. -/
def handle (client : ClientId) (l : Line) (payload : Bytes) : Line :=
  if l.up then
    match Request.decode payload with
    | .error _ => { l with up := false }
    | .ok request =>
      let (_, sink, store) := l.store.serve client request { written := l.unread }
      { l with store, unread := sink.written }
  else l

/-- Takes the chunks that arrive from the client, and carries out what they complete. A header that
is refused ends the conversation. -/
def receive (client : ClientId) (l : Line) (chunks : List Bytes) : Line :=
  let (parsed, reader) := l.reader.drive chunks
  let l := parsed.payloads.foldl (handle client) { l with reader }
  { l with up := l.up && parsed.fault.isNone }

/-- Makes a call that arrives in the given chunks, and reads its response. -/
def call (client : ClientId) (l : Line) (c : Call) (chunks : List Bytes) :
    Except CallError Reply × Line :=
  let l := l.receive client chunks
  let (result, unread) := c.read l.unread
  (result, { l with unread })

end Line

/-- What happens next: the client makes a call that arrives in the given chunks, or the store
carries out a payload of any client, or releases the locks of one. -/
inductive Turn where
  | call (c : Call) (chunks : List Bytes)
  | request (owner : ClientId) (payload : Bytes)
  | release (owner : ClientId)

namespace Line

/-- Takes turns, and collects the results of the calls. -/
def converse (client : ClientId) (l : Line) : List Turn → List (Except CallError Reply) × Line
  | [] => ([], l)
  | .call c chunks :: turns =>
    let (result, l) := l.call client c chunks
    let (results, l) := l.converse client turns
    (result :: results, l)
  | .request owner payload :: turns =>
    { l with store := l.store.after owner payload }.converse client turns
  | .release owner :: turns => { l with store := (l.store.release owner).2 }.converse client turns

end Line

/-- The same turns on a store alone: every call is carried out directly. -/
def Store.outcomes (client : ClientId) (s : Store) :
    List Turn → List (Except CallError Reply) × Store
  | [] => ([], s)
  | .call c _ :: turns =>
    let (result, s) := c.outcome s client
    let (results, s) := s.outcomes client turns
    (result :: results, s)
  | .request owner payload :: turns => (s.after owner payload).outcomes client turns
  | .release owner :: turns => (s.release owner).2.outcomes client turns

/-- A call that may be made on a store: its frame arrives in the chunks, its path is not empty, and
its payload is within the limit. Payload and reply are such as buffers hold; no larger ones can be
built. -/
structure Call.Fits (limit : Nat) (client : ClientId) (s : Store) (c : Call) (chunks : List Bytes) :
    Prop where
  flatten_eq : chunks.flatten = c.sent
  path_ne : c.request.path? ≠ some ""
  within : c.request.encode.length ≤ limit
  held : c.request.encode.length ≤ Bytes.maxSize
  sendable : ∀ reply, (c.outcome s client).1 = .ok reply → reply.Sendable

/-- Every call of the turns may be made on the store that it comes to. -/
def Store.Fits (limit : Nat) (client : ClientId) (s : Store) : List Turn → Prop
  | [] => True
  | .call c chunks :: turns =>
    c.Fits limit client s chunks ∧ (c.outcome s client).2.Fits limit client turns
  | .request owner payload :: turns => (s.after owner payload).Fits limit client turns
  | .release owner :: turns => (s.release owner).2.Fits limit client turns

instance (f : SentFile) : Decidable f.Sendable :=
  inferInstanceAs (Decidable (_ ∧ _))

instance : (reply : Reply) → Decidable reply.Sendable
  | .done => .isTrue trivial
  | .contents bytes => inferInstanceAs (Decidable (bytes.length ≤ _))
  | .files fs => inferInstanceAs (Decidable (∀ f ∈ fs, f.Sendable))
  | .evicted fs => inferInstanceAs (Decidable (fs.length ≤ _ ∧ ∀ f ∈ fs, f.Sendable))

instance : (result : Except CallError Reply) →
    Decidable (∀ reply, result = .ok reply → reply.Sendable)
  | .ok reply => decidable_of_iff reply.Sendable (by simp)
  | .error _ => .isTrue (by simp)

instance (limit : Nat) (client : ClientId) (s : Store) (c : Call) (chunks : List Bytes) :
    Decidable (c.Fits limit client s chunks) :=
  decidable_of_iff
    (chunks.flatten = c.sent ∧ c.request.path? ≠ some "" ∧ c.request.encode.length ≤ limit ∧
      c.request.encode.length ≤ Bytes.maxSize ∧
      ∀ reply, (c.outcome s client).1 = .ok reply → reply.Sendable)
    ⟨fun ⟨hf, hp, hl, hm, hs⟩ => ⟨hf, hp, hl, hm, hs⟩,
      fun ⟨hf, hp, hl, hm, hs⟩ => ⟨hf, hp, hl, hm, hs⟩⟩

/-- Whether the turns fit can be seen by taking them on the store. -/
def Store.decidableFits (limit : Nat) (client : ClientId) :
    (s : Store) → (turns : List Turn) → Decidable (s.Fits limit client turns)
  | _, [] => .isTrue trivial
  | s, .call c chunks :: turns =>
    have := Store.decidableFits limit client (c.outcome s client).2 turns
    inferInstanceAs (Decidable (c.Fits limit client s chunks ∧ _))
  | s, .request owner payload :: turns =>
    Store.decidableFits limit client (s.after owner payload) turns
  | s, .release owner :: turns => Store.decidableFits limit client (s.release owner).2 turns

instance (limit : Nat) (client : ClientId) (s : Store) (turns : List Turn) :
    Decidable (s.Fits limit client turns) :=
  Store.decidableFits limit client s turns

/-! ## Frames on the way -/

namespace FrameReader

/-- A reader between two messages. -/
structure Between (limit : Nat) (r : FrameReader) : Prop where
  midway : r.Midway
  pending_eq : r.pending = []
  limit_eq : r.limit = limit

theorem pending_eq_nil_of_isIdle {r : FrameReader} (h : r.isIdle = true) : r.pending = [] := by
  have hr : r.received = .header [] := by simpa [isIdle] using h
  simp [pending, hr]

/-- However the frame of a payload is cut, a reader between messages gets the payload from it and
is between messages again. -/
theorem Between.drive {limit : Nat} {r : FrameReader} (h : r.Between limit) {payload : Bytes}
    (hl : payload.length ≤ limit) (hm : payload.length ≤ Bytes.maxSize) {chunks : List Bytes}
    (hc : chunks.flatten = Frame.encode payload) :
    (r.drive chunks).1.payloads = [payload] ∧ (r.drive chunks).1.fault = none ∧
      (r.drive chunks).2.Between limit := by
  obtain ⟨hmid, hpending, rfl⟩ := h
  have hf := follows_drive hmid chunks
  rw [hpending] at hf
  have hn := Frame.refusal?_eq_none.mpr ⟨hl, hm⟩
  have hparse : (r.drive chunks).1 =
      { payloads := [payload], absorbed := ([payload].flatMap Frame.encode).length } := by
    rw [hf.eq_parse, hc, ← List.flatMap_singleton Frame.encode payload]
    exact Frame.parse_frames (by simpa using ⟨Frame.lt_of_refusal?_eq_none hn, hn⟩)
  have hidle := hf.isIdle (by rw [hparse])
  obtain ⟨hmid, hlimit, -⟩ := hf.going (by rw [hparse])
  exact ⟨by rw [hparse], by rw [hparse], hmid, pending_eq_nil_of_isIdle hidle, hlimit⟩

end FrameReader

/-! ## Staying in step -/

namespace Line

variable {limit : Nat} {client : ClientId} {l : Line} {c : Call} {chunks : List Bytes}

/-- A connection on which all has been heard and read. -/
structure InStep (limit : Nat) (l : Line) : Prop where
  listable : l.store.Listable
  between : l.reader.Between limit
  unread_eq : l.unread = []
  up_eq : l.up = true

theorem handle_encode (client : ClientId) (h : l.up = true) {request : Request}
    (hp : request.path? ≠ some "") (hl : request.encode.length ≤ Bytes.maxSize) :
    l.handle client request.encode =
      { l with
        store := (l.store.respond client request).2
        unread := l.unread ++ (l.store.respond client request).1.encode } := by
  have hlt : request.encode.length < 2 ^ 64 := Nat.lt_of_le_of_lt hl (by decide)
  simp only [handle, h, if_true, Request.decode_encode hp (Request.sized_of_length_encode hlt), Store.serve]
  rw [Sink.putAll_eq rfl]
  rfl

/-- What arrives of a call is carried out, and the whole response is there to be read. -/
theorem InStep.receive (h : l.InStep limit) (hc : c.Fits limit client l.store chunks) :
    ∃ r : FrameReader, r.Between limit ∧ l.receive client chunks =
      { store := (l.store.respond client c.request).2
        reader := r
        unread := (l.store.respond client c.request).1.encode } := by
  obtain ⟨hpayloads, hfault, hr⟩ := h.between.drive hc.within hc.held hc.flatten_eq
  refine ⟨_, hr, ?_⟩
  have hhandle := handle_encode (l := { l with reader := (l.reader.drive chunks).2 }) client
    h.up_eq hc.path_ne hc.held
  simp only [Line.receive, hpayloads, hfault, List.foldl_cons, List.foldl_nil, hhandle]
  simp [h.unread_eq, h.up_eq]

/-- A response is read to its last byte, whatever comes after it. -/
theorem InStep.read (h : l.InStep limit) (hc : c.Fits limit client l.store chunks)
    (later : Bytes) : c.read ((l.receive client chunks).unread ++ later) =
      ((c.outcome l.store client).1, later) := by
  obtain ⟨r, -, hl⟩ := h.receive hc
  rw [hl]
  exact c.read_respond h.listable.path_ne hc.sendable later

theorem InStep.call (h : l.InStep limit) (hc : c.Fits limit client l.store chunks) :
    (l.call client c chunks).1 = (c.outcome l.store client).1 ∧
      (l.call client c chunks).2.store = (c.outcome l.store client).2 ∧
      (l.call client c chunks).2.InStep limit := by
  obtain ⟨r, hr, hl⟩ := h.receive hc
  have hread := h.read hc []
  rw [List.append_nil, hl] at hread
  have hstore := h.listable.respond client hc.path_ne
  simp only [Line.call, hl, hread, Call.outcome_snd, true_and]
  exact ⟨hstore, hr, rfl, rfl⟩

theorem InStep.withStore (h : l.InStep limit) {s : Store} (hs : s.Listable) :
    InStep limit { l with store := s } :=
  ⟨hs, h.between, h.unread_eq, h.up_eq⟩

theorem InStep.converse (h : l.InStep limit) {turns : List Turn}
    (ht : l.store.Fits limit client turns) :
    (l.converse client turns).1 = (l.store.outcomes client turns).1 ∧
      (l.converse client turns).2.store = (l.store.outcomes client turns).2 ∧
      (l.converse client turns).2.InStep limit := by
  -- The induction is on the turns; what one call does keeps the connection in step.
  induction turns generalizing l with
  | nil => exact ⟨rfl, rfl, h⟩
  | cons turn turns ih =>
      cases turn with
      | call c chunks =>
          obtain ⟨hresult, hstore, hstep⟩ := h.call ht.1
          have hrest := ih hstep (hstore ▸ ht.2)
          simp only [Line.converse, Store.outcomes, hresult]
          rw [hstore] at hrest
          exact ⟨congrArg _ hrest.1, hrest.2⟩
      | request owner payload => exact ih (h.withStore (h.listable.after owner payload)) ht
      | release owner => exact ih (h.withStore (h.listable.release owner)) ht

end Line

/-- Client and server agree end to end. From an empty store, whatever its settings, and whatever
other clients' requests and releases come in between: the results of a client's calls are those of
the operations on the store, which ends up the same, and nothing is left unread or unfinished. Of
every further call the client reads the response to its last byte and nothing after it. -/
theorem converse_eq_outcomes (maxFiles maxBytes : UInt64) (placement : Placement) (policy : Policy)
    (dice : Dice) (client : ClientId) (limit : Nat) (turns : List Turn)
    (ht : (Store.empty maxFiles maxBytes placement policy dice).Fits limit client turns) :
    let s := Store.empty maxFiles maxBytes placement policy dice
    let conversation := Line.converse client { store := s, reader := { limit } } turns
    let l := conversation.2
    (conversation.1, l.store) = s.outcomes client turns ∧
      l.unread = [] ∧ l.up = true ∧ l.reader.isIdle = true ∧
      ∀ (c : Call) chunks, c.Fits limit client l.store chunks → ∀ later,
        c.read ((l.receive client chunks).unread ++ later) =
          ((c.outcome l.store client).1, later) := by
  intro s conversation l
  have hstart : Line.InStep limit { store := s, reader := { limit } } :=
    ⟨Store.listable_empty .., ⟨Nat.zero_lt_succ _, rfl, rfl⟩, rfl, rfl⟩
  obtain ⟨hresults, hstore, hstep⟩ := hstart.converse ht
  refine ⟨Prod.ext hresults hstore, hstep.unread_eq, hstep.up_eq, ?_, ?_⟩
  · exact FrameReader.isIdle_of_pending_eq_nil hstep.between.pending_eq
  · exact fun c chunks hc later => hstep.read hc later

/-- A conversation in which another client's lock is in the way once, and an append evicts the
client's own file. -/
theorem converse_eq_outcomes_two_buckets :
    let cut (n : Nat) (c : Call) : Turn := .call c [c.sent.take n, [], c.sent.drop n]
    let turns : List Turn := [cut 3 (.openFile "a" true true), cut 9 (.write "a" [1, 2]),
      .request ⟨2⟩ (Request.openFile "b" true true).encode, cut 0 (.append "b" [3]),
      .release ⟨2⟩, cut 20 (.append "b" [3, 4]), cut 8 (.fetchN 0), cut 1 (.fetch "a")]
    let s := Store.empty 1 3 ⟨2, fun path => Fin.ofNat 2 path.length⟩ .segmentedFifo
      ⟨fun n => 7 * n, 0⟩
    let conversation := Line.converse ⟨1⟩ { store := s, reader := { limit := 64 } } turns
    s.Fits 64 ⟨1⟩ turns ∧
      (conversation.1, conversation.2.store) = s.outcomes ⟨1⟩ turns ∧
      (s.outcomes ⟨1⟩ turns).1 =
        [.ok .done, .ok (.evicted []), .error .rejected, .ok (.evicted [⟨"a", [1, 2]⟩]),
          .ok (.files [⟨"b", [3, 4]⟩]), .error .rejected] :=
  ⟨by decide +kernel, (converse_eq_outcomes 1 3 _ _ _ ⟨1⟩ 64 _ (by decide +kernel)).1,
    by with_unfolding_all rfl⟩

end FileDepot
