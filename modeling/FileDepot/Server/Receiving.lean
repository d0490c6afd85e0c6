import FileDepot.Server.Basic

/-!
# Receiving

One poll reaps the connections that died in an earlier one, reads once from each connection that
has bytes or its end to read, and then accepts the clients that wait. A panic in a read ends all
this: the receiver lets go of its clients without another word.
-/

namespace FileDepot.Server

-- The zero of the core library, whatever else is in scope.
attribute [local instance (high)] Zero.ofOfNat0

/-- Posts the hang-ups of dead connections, in the order of their acceptance. -/
def reapDead (s : Server) : Server :=
  let dead := s.connections.filter (·.dead)
  let s := { s with connections := s.connections.filter (!·.dead) }
  dead.foldl (fun s c => (s.note (.reaped c.id)).dispatch ⟨c.id, c.stream, .hangUp⟩) s

/-- Offers the bytes read from a connection to its reader, and dispatches the message that they
complete. The connection dies if its reader refuses them, and the receiver if its reader panics. -/
def offer (s : Server) (c : Connection) (bytes : Bytes) : Connection × Server :=
  match c.reader.offer bytes with
  | (.ok (_, .needs _), reader) => ({ c with reader }, s)
  | (.ok (_, .message payload), reader) =>
    ({ c with reader },
      (s.onStream c.stream Duplex.hold).dispatch ⟨c.id, c.stream, .request payload⟩)
  | (.error e, reader) =>
    if e.panics then ({ c with reader }, s.fall) else ({ c with reader, dead := true }, s)

/-- Reads once from a connection, at most as many bytes as its reader wants. Nothing to read means
the end: the connection dies. -/
def read (s : Server) (c : Connection) : Connection × Server :=
  match s.stream? c.stream with
  | none => ({ c with dead := true }, s)
  | some d =>
    let (bytes, up) := d.up.take c.reader.wanted
    let s := s.onStream c.stream ({ · with up })
    if bytes.isEmpty then ({ c with dead := true }, s) else s.offer c bytes

/-- Whether a connection has bytes or its end to read. -/
def ready (s : Server) (c : Connection) : Bool :=
  (s.stream? c.stream).any Duplex.readable

/-- Reads once from each of some connections that are ready, until the receiver falls. -/
def readAll (s : Server) : List Connection → List Connection × Server
  | [] => ([], s)
  | c :: cs =>
    let (c, s) := if s.fallen.isNone && s.ready c then s.read c else (c, s)
    let (cs, s) := s.readAll cs
    (c :: cs, s)

/-- Reads once from each connection that is ready, as long as the receiver stands. -/
def readReady (s : Server) : Server :=
  let (connections, s) := s.readAll s.connections
  { s with connections }

/-- Accepts one waiting client, or lets go of it if the door is closed. -/
def accept (s : Server) (i : StreamId) : Server :=
  if s.soft then s.onStream i Duplex.drop
  else
    let id : ClientId := ⟨s.nextId⟩
    let c : Connection := { id, stream := i, reader := { limit := s.settings.maxMessage } }
    { s with connections := s.connections ++ [c], nextId := s.nextId + 1 }.note (.accepted id i)

/-- Accepts every waiting client. -/
def acceptAll (s : Server) : Server :=
  s.waiting.foldl accept { s with waiting := [] }

/-- Lets go of the first waiting client, whose stream cannot be set up. -/
def turnAway (s : Server) : Server :=
  match s.waiting with
  | [] => s
  | i :: waiting => { s with waiting }.onStream i Duplex.drop

/-- Lets go of the next connection, if the receiver has fallen. -/
def forsakeNext (s : Server) : Server :=
  match s.fallen with
  | none => s
  | some n =>
    match s.connections[n]? with
    | none => s
    | some c => { s with fallen := some (n + 1) }.onStream c.stream Duplex.drop

/-- Lets go of the clients that wait and of all connections after a fall. Nobody is told, and
nothing is posted. -/
def forsakeAll (s : Server) : Server :=
  s.connections.foldl (fun s _ => s.forsakeNext) (s.waiting.foldl (fun s _ => s.turnAway) s)

/-- One round of the receiver. After a hard request nothing but the reaping is done. -/
def poll (s : Server) : Server :=
  s.receiving fun s =>
    let s := s.reapDead
    if s.hard then s
    else
      let s := s.readReady
      if s.fallen.isSome then s.forsakeAll else s.acceptAll

/-- Ends every connection when the receiver stops. -/
def windUp (s : Server) : Server :=
  s.receiving fun s =>
    let s := s.connections.foldl (fun s c => s.onStream c.stream Duplex.hangUp) s
    let kill (c : Connection) : Connection := { c with dead := true }
    { s with connections := s.connections.map kill }.reapDead

/-- Polls until the receiver should stop, at most `fuel` times. One that falls never does. -/
def pollUntilDead : Nat → Server → Option Server
  | 0, s => if s.isDone then some s else none
  | fuel + 1, s => if s.isDone then some s else pollUntilDead fuel s.poll

/-- The number of bytes sent by clients and not read. -/
def unreadBytes (s : Server) : Nat :=
  (s.streams.map (·.up.unread.length)).sum

/-- Whether a receiver stops without anything more from the outside: at once after a hard request,
and after a soft one when all clients have given up their ends. -/
def canFinish (s : Server) : Bool :=
  s.hard || (s.soft && s.streams.all fun d => !d.clientOpen)

/-- Receives until the receiver stops. Every poll reads a byte, finds an end, or reaps, so the
number of unread bytes bounds the polls. -/
def receive? (s : Server) : Option Server :=
  if s.canFinish then (pollUntilDead (s.unreadBytes + 3) s).map windUp else none

end FileDepot.Server
