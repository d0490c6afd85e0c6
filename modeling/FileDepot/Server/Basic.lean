import FileDepot.Frame
import FileDepot.Response
import FileDepot.Server.Duplex

/-!
# The server

A receiver takes the messages of all connections and posts them to the queues of workers, which
apply them to the store. A message holds the stream of its connection, and so does the receiver
until it reaps the connection and passes its hold on in a hang-up message. Whoever lets go of a
stream last comes after everything else that the connection sent.
-/

namespace FileDepot

/-- How the receiver picks the worker for a message. -/
inductive Selection where
  /-- All messages of a connection go to one worker, and so are served in order. -/
  | sticky
  /-- The dice pick a worker for each message. -/
  | random
deriving DecidableEq, Repr

/-- A stream's number: its place among all streams. -/
abbrev StreamId := Nat

/-- What a worker is asked to do. -/
inductive Work where
  /-- To serve the payload of one message, not decoded yet. -/
  | request (payload : Bytes)
  /-- To let go of the receiver's hold on a stream: the connection is gone. -/
  | hangUp
deriving DecidableEq, Repr

/-- A message to a worker: the connection it is from and the stream to answer on. -/
structure Message where
  sender : ClientId
  stream : StreamId
  work : Work
deriving DecidableEq, Repr

/-- A client connection, as the receiver sees it. A dead one is reaped at the next poll. -/
structure Connection where
  id : ClientId
  stream : StreamId
  reader : FrameReader
  dead : Bool := false
deriving DecidableEq, Repr

/-- What a worker is doing. -/
inductive Hand where
  | idle
  /-- The message is pulled and not applied yet. -/
  | serving (m : Message)
  /-- The message is applied, and its stream still held. -/
  | served (m : Message)
deriving DecidableEq, Repr

/-- A worker and its queue, first message first. -/
structure Worker where
  queue : List Message := []
  hand : Hand := .idle
deriving DecidableEq, Repr

/-- What has happened in a server. -/
inductive Event where
  | accepted (id : ClientId) (stream : StreamId)
  | posted (worker : Nat) (m : Message)
  | reaped (id : ClientId)
  /-- A request was applied to the store; the bytes are its response. -/
  | applied (m : Message) (request : Request) (response : Bytes)
  /-- A payload was no request, and the server hung up. -/
  | rejected (m : Message) (why : RequestError)
  | released (id : ClientId)

/-- The settings of a server beyond those of its store. -/
structure Settings where
  maxMessage : Nat := Frame.defaultLimit
  selection : Selection := .sticky

/-- The state of a server and of the streams to its clients. -/
structure Server where
  settings : Settings
  store : Store
  workers : List Worker
  dice : Dice := ⟨fun _ => 0, 0⟩
  /-- No new connections are accepted. -/
  soft : Bool := false
  /-- Everything stops. -/
  hard : Bool := false
  streams : List Duplex := []
  /-- Streams that wait to be accepted, first one first. -/
  waiting : List StreamId := []
  connections : List Connection := []
  /-- A receiver that panics has fallen. Its list of connections stays as it is, and all that it
  does from then on is to let go of them, first one first. This is how many it has let go of. -/
  fallen : Option Nat := none
  nextId : Nat := 0
  journal : List Event := []

namespace Server

/-- A server with idle workers and no clients. -/
def start (settings : Settings) (store : Store) (workers : Nat) : Server where
  settings
  store
  workers := List.replicate workers {}

/-- Notes an event. -/
def note (s : Server) (e : Event) : Server :=
  { s with journal := s.journal ++ [e] }

/-- A stream by its number. -/
def stream? (s : Server) (i : StreamId) : Option Duplex :=
  s.streams[i]?

/-- Changes a stream. -/
def onStream (s : Server) (i : StreamId) (change : Duplex → Duplex) : Server :=
  { s with streams := s.streams.modify i change }

/-- Changes a worker. -/
def onWorker (s : Server) (w : Nat) (change : Worker → Worker) : Server :=
  { s with workers := s.workers.modify w change }

/-- A fresh stream, held once. -/
def openStream (s : Server) : StreamId × Server :=
  (s.streams.length, { s with streams := s.streams ++ [{}] })

/-- Adds a message to the end of a worker's queue. -/
def post (s : Server) (worker : Nat) (m : Message) : Server :=
  (s.onWorker worker fun w => { w with queue := w.queue ++ [m] }).note (.posted worker m)

/-- The worker for a message: fixed for each connection, or thrown by the dice. -/
def workerFor (s : Server) (id : ClientId) : Nat × Server :=
  match s.settings.selection with
  | .sticky => (id.number % s.workers.length, s)
  | .random =>
    let (n, dice) := s.dice.roll
    (n % s.workers.length, { s with dice })

/-- Posts a message to the worker picked for it. -/
def dispatch (s : Server) (m : Message) : Server :=
  let (worker, s) := s.workerFor m.sender
  s.post worker m

/-- Accepts no more connections. -/
def closeDoor (s : Server) : Server :=
  { s with soft := true }

/-- Stops everything, and so accepts no more connections either. -/
def stopAll (s : Server) : Server :=
  { s with soft := true, hard := true }

/-- The receiver panics. -/
def fall (s : Server) : Server :=
  { s with fallen := some 0 }

/-- The connections that the receiver has not let go of. -/
def held (s : Server) : List Connection :=
  s.connections.drop (s.fallen.getD 0)

/-- What the receiver does, unless it has fallen. -/
def receiving (s : Server) (act : Server → Server) : Server :=
  if s.fallen.isSome then s else act s

/-- Whether the receiver should stop: at once, or when the last client has left after a soft
request. One that has fallen does not get to asking. -/
def isDone (s : Server) : Bool :=
  s.fallen.isNone && (s.hard || (s.soft && s.connections.isEmpty))

end Server

end FileDepot
