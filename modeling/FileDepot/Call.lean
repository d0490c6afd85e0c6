import FileDepot.Frame
import FileDepot.Response

/-!
# Calls

The client's side of the conversation: a call is sent as one framed request, and its response is
read from the stream of bytes that the server sends.
-/

namespace FileDepot

/-- A call by a client. -/
inductive Call where
  | openFile (path : String) (create lock : Bool)
  | fetch (path : String)
  | fetchN (count : UInt64)
  | write (path : String) (contents : Bytes)
  | append (path : String) (contents : Bytes)
  | lock (path : String)
  | unlock (path : String)
  | close (path : String)
  | remove (path : String)
deriving DecidableEq, Repr

/-- What a successful call returns. -/
inductive Reply where
  | done
  | contents (bytes : Bytes)
  | files (files : List SentFile)
  | evicted (files : List SentFile)
deriving DecidableEq, Repr

/-- Why a call fails. -/
inductive CallError where
  | wire (fault : WireFault)
  | rejected
  | badResponse
deriving DecidableEq, Repr

/-- The wording of a failure. -/
def CallError.message : CallError → String
  | .wire fault => "I/O error: " ++ fault.message
  | .rejected => "the server rejected the request"
  | .badResponse => "malformed response from the server"

namespace Call

/-- The request of a call. -/
def request : Call → Request
  | .openFile path create locked => .openFile path create locked
  | .fetch path => .read path
  | .fetchN count => .readN count
  | .write path contents => .write path contents
  | .append path contents => .append path contents
  | .lock path => .lock path
  | .unlock path => .unlock path
  | .close path => .close path
  | .remove path => .remove path

/-- The bytes that a call sends. -/
def sent (c : Call) : Bytes :=
  Frame.encode c.request.encode

/-- Reads on where a reader left off. -/
def andThen {α β : Type} (read : Reader WireFault α) (next : α → Reader CallError β) :
    Reader CallError β := fun input =>
  match read input with
  | (.ok a, rest) => next a rest
  | (.error fault, rest) => (.error (.wire fault), rest)

/-- Reads a status; any byte but the two known ones is a bad response. -/
def readStatus (next : Status → Reader CallError α) : Reader CallError α :=
  andThen (Reader.exactly 1) fun bytes input =>
    match bytes.head?.bind Status.ofByte? with
    | some status => next status input
    | none => (.error .badResponse, input)

/-- Reads a response of one status. -/
def readSimple : Reader CallError Reply :=
  readStatus fun status input =>
    match status with
    | .ok => (.ok .done, input)
    | .err => (.error .rejected, input)

/-- Reads the contents of a file. -/
def readContents : Reader CallError Reply :=
  readStatus fun status =>
    match status with
    | .ok => andThen Reader.word fun length =>
        andThen (Reader.declared length) fun bytes input => (.ok (.contents bytes), input)
    | .err => fun input => (.error .rejected, input)

/-- Reads a sent file whose path has a known length. -/
def readFileBody (pathLength : Nat) : Reader CallError SentFile :=
  andThen Reader.word fun contentsLength =>
    andThen (Reader.declared pathLength) fun path =>
      andThen (Reader.declared contentsLength) fun contents input =>
        match Bytes.toText? path with
        | some path => (.ok ⟨path, contents⟩, input)
        | none => (.error .badResponse, input)

/-- Reads a sent file. -/
def readSentFile : Reader CallError SentFile :=
  andThen Reader.word readFileBody

/-- Reads a number of sent files, up to the first failure. -/
def readSentFiles : Nat → Reader CallError (List SentFile)
  | 0 => fun input => (.ok [], input)
  | count + 1 => fun input =>
    match readSentFile input with
    | (.error e, rest) => (.error e, rest)
    | (.ok file, rest) => (readSentFiles count rest).map (Except.map (file :: ·)) id

/-- Reads the files evicted by a write or an append. A refusal is told after them. -/
def readEvicted : Reader CallError Reply :=
  readStatus fun status =>
    andThen Reader.word fun count input =>
      match readSentFiles count input with
      | (.error e, rest) => (.error e, rest)
      | (.ok files, rest) =>
        match status with
        | .ok => (.ok (.evicted files), rest)
        | .err => (.error .rejected, rest)

/-- Reads sent files up to a path length of 0. Each takes up more than one byte, so the number of
bytes bounds the number of files. -/
def readListingUpTo : Nat → Reader CallError (List SentFile)
  | 0 => fun input => (.error (.wire .cutShort), input)
  | fuel + 1 =>
    andThen Reader.word fun pathLength input =>
      if pathLength = 0 then (.ok [], input)
      else
        match readFileBody pathLength input with
        | (.error e, rest) => (.error e, rest)
        | (.ok file, rest) => (readListingUpTo fuel rest).map (Except.map (file :: ·)) id

/-- Reads a listing. -/
def readListing : Reader CallError Reply := fun input =>
  (readListingUpTo (input.length + 1) input).map (Except.map .files) id

/-- Reads the response to a call. -/
def read : Call → Reader CallError Reply
  | .fetch _ => readContents
  | .fetchN _ => readListing
  | .write .. | .append .. => readEvicted
  | _ => readSimple

end Call

end FileDepot
