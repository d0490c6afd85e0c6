import FileDepot.Call
import FileDepot.Server.Receiving
import FileDepot.Server.Working

/-!
# Clients of a server

What clients do to their ends of the streams, and whole conversations with a server that is left
to do its work after each step.
-/

namespace FileDepot.Server

-- The zero of the core library, whatever else is in scope.
attribute [local instance (high)] Zero.ofOfNat0

/-- A client connects, and waits to be accepted. -/
def connect (s : Server) : StreamId × Server :=
  let (i, s) := s.openStream
  (i, { s with waiting := s.waiting ++ [i] })

/-- A client sends bytes, unless its stream takes no more. -/
def clientSend (s : Server) (i : StreamId) (bytes : Bytes) : Option Server :=
  ((s.stream? i).bind (·.clientSend bytes)).map fun d => s.onStream i fun _ => d

/-- A client sends no more. -/
def halfClose (s : Server) (i : StreamId) : Server :=
  s.onStream i Duplex.halfClose

/-- A client gives up its end. -/
def clientClose (s : Server) (i : StreamId) : Server :=
  s.onStream i Duplex.clientClose

/-- A client takes all that it can read; it also learns whether there is an end. -/
def clientReceive (s : Server) (i : StreamId) : Bytes × Bool × Server :=
  match s.stream? i with
  | none => ([], true, s)
  | some d =>
    let (bytes, d') := d.clientReceive
    (bytes, d.downEnded, s.onStream i fun _ => d')

/-- Whether nothing is left to do without anything more from the outside. -/
def isQuiet (s : Server) : Bool :=
  s.workers.all (·.queue.isEmpty)
    && (s.fallen.isSome || (s.waiting.isEmpty && s.connections.all fun c => !c.dead && !s.ready c))

/-- Receives and works until nothing is left to do, at most `fuel` rounds. -/
def settleUpTo : Nat → Server → Server
  | 0, s => s
  | fuel + 1, s =>
    if s.isQuiet || s.hard then s
    else
      let s := s.poll
      settleUpTo fuel (workAll (s.workers.map (·.queue.length)).sum s)

/-- Receives and works until nothing is left to do. Every round reads a byte, finds an end, reaps
or accepts, which bounds the rounds. -/
def settle (s : Server) : Server :=
  settleUpTo (s.unreadBytes + 3 * (s.connections.length + s.waiting.length) + 3) s

/-- Reads the response to a call from what the server has sent. -/
def readReply (s : Server) (i : StreamId) (call : Call) : Except CallError Reply × Server :=
  match s.stream? i with
  | none => (.error (.wire .cutShort), s)
  | some d =>
    let unread := d.down.unread
    let (reply, rest) := call.read unread
    (reply, s.onStream i ({ · with down := (d.down.take (unread.length - rest.length)).2 }))

/-- A client makes a call and waits for the response. -/
def call (s : Server) (i : StreamId) (call : Call) : Except CallError Reply × Server :=
  match s.clientSend i call.sent with
  | none => (.error (.wire .full), s)
  | some s => s.settle.readReply i call

/-- A client leaves, and the server does what there is to do about it. -/
def leave (s : Server) (i : StreamId) : Server :=
  (s.clientClose i).settle

/-- The server stops: the receiver ends its connections, and then the workers find that everything
stops, whatever is queued. -/
def shutDown (s : Server) : Server :=
  s.windUp.stopAll

end FileDepot.Server
