import FileDepot.Server.Basic

/-!
# Working

A worker pulls a message from its queue, applies it and answers on the message's stream, and then
lets go of the stream. If that was the last hold, the connection is gone for good and its locks
are released: no later message of it can take a lock any more.
-/

namespace FileDepot.Server

/-- Pulls the first message of a worker's queue into its hand. -/
def pull? (s : Server) (w : Nat) : Option (Message × Server) :=
  match s.workers[w]? with
  | some ⟨m :: queue, .idle⟩ => some (m, s.onWorker w fun _ => ⟨queue, .serving m⟩)
  | _ => none

/-- Applies a payload to the store and answers on the stream. A payload that is no request makes
the server hang up: the next request cannot be found. An empty response is not sent. -/
def answer (s : Server) (m : Message) (payload : Bytes) : Server :=
  match Request.decode payload with
  | .error why => (s.onStream m.stream Duplex.hangUp).note (.rejected m why)
  | .ok request =>
    let (response, store) := s.store.respond m.sender request
    let bytes := response.encode
    let s := { s with store }.note (.applied m request bytes)
    if bytes.isEmpty then s else s.onStream m.stream (·.serverSend bytes)

/-- Applies the message in a worker's hand. -/
def apply (s : Server) (w : Nat) : Server :=
  match s.workers[w]? with
  | some ⟨queue, .serving m⟩ =>
    let s := match m.work with
      | .request payload => s.answer m payload
      | .hangUp => s
    s.onWorker w fun _ => ⟨queue, .served m⟩
  | _ => s

/-- Whether a stream's only hold is about to go. -/
def lastHold (s : Server) (i : StreamId) : Bool :=
  (s.stream? i).any (·.holders = 1)

/-- Unlocks all that a client holds. -/
def release (s : Server) (id : ClientId) : Server :=
  { s with store := (s.store.release id).2 }.note (.released id)

/-- Lets go of the stream of the message in a worker's hand, and releases the sender's locks if
that was the last hold. -/
def finish (s : Server) (w : Nat) : Server :=
  match s.workers[w]? with
  | some ⟨queue, .served m⟩ =>
    let last := s.lastHold m.stream
    let s := s.onStream m.stream Duplex.drop
    let s := if last then s.release m.sender else s
    s.onWorker w fun _ => ⟨queue, .idle⟩
  | _ => s

/-- What a worker finds when it looks for work. -/
inductive Pulled where
  /-- The queue is empty. -/
  | wouldBlock
  /-- Everything stops, whatever is queued. -/
  | stopped
  | message (m : Message)
deriving DecidableEq, Repr

/-- Looks for work. -/
def look (s : Server) (w : Nat) : Pulled × Server :=
  if s.hard then (.stopped, s)
  else
    match s.pull? w with
    | some (m, s) => (.message m, s)
    | none => (.wouldBlock, s)

/-- Looks for work and does it. -/
def work (s : Server) (w : Nat) : Pulled × Server :=
  match s.look w with
  | (.message m, s) => (.message m, (s.apply w).finish w)
  | (idle, s) => (idle, s)

/-- Does the work of every queue, one message of each worker in turn, `fuel` times around. -/
def workAll : Nat → Server → Server
  | 0, s => s
  | fuel + 1, s =>
    if s.workers.all (·.queue.isEmpty) then s
    else workAll fuel ((List.range s.workers.length).foldl (fun s w => (s.work w).2) s)

end FileDepot.Server
