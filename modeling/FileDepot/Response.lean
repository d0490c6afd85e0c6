import FileDepot.Store.Cursor
import FileDepot.Store.Operation
import FileDepot.Request
import FileDepot.Wire

/-!
# Responses

What the server answers to a request, and its written form. Responses are not framed: a client
knows from its request what to expect.
-/

namespace FileDepot

/-- The first byte of most responses. -/
inductive Status where
  | ok
  | err
deriving DecidableEq, Repr

namespace Status

def toByte : Status → UInt8
  | .ok => 0
  | .err => 1

/-- The status of a byte. -/
def ofByte? (b : UInt8) : Option Status :=
  [Status.ok, Status.err].find? (·.toByte = b)

/-- The status's name in messages. -/
def name : Status → String
  | .ok => "Ok"
  | .err => "Err"

/-- The status of a result. -/
def ofResult {ε α : Type} : Except ε α → Status
  | .ok _ => .ok
  | .error _ => .err

end Status

/-- A file as it is sent: its path and contents. -/
structure SentFile where
  path : String
  contents : Bytes
deriving DecidableEq, Repr

/-- The written form of a sent file: the two lengths, the path and the contents. -/
def SentFile.pieces (f : SentFile) : List Bytes :=
  [Bytes.word (Bytes.ofText f.path).length, Bytes.word f.contents.length, Bytes.ofText f.path,
    f.contents]

/-- A stored file as it is sent. -/
def File.sent (f : File) : SentFile :=
  ⟨f.path, f.contents⟩

/-- What the server answers. -/
inductive Response where
  | silent
  | status (s : Status)
  | contents (bytes : Bytes)
  | listing (files : List SentFile)
  | evicted (files : List SentFile)
  /-- A write or an append that was refused. -/
  | noEvictions
deriving DecidableEq, Repr

namespace Response

/-- The written form in the pieces that are sent one after the other. A listing ends with the
length 0, which no path has. -/
def pieces : Response → List Bytes
  | .silent => []
  | .status s => [[s.toByte]]
  | .contents bytes => [[Status.ok.toByte], Bytes.word bytes.length, bytes]
  | .listing files => files.flatMap SentFile.pieces ++ [Bytes.word 0]
  | .evicted files =>
    [[Status.ok.toByte], Bytes.word files.length] ++ files.flatMap SentFile.pieces
  | .noEvictions => [[Status.err.toByte], Bytes.word 0]

/-- The written form. -/
def encode (r : Response) : Bytes :=
  r.pieces.flatten

/-- The response to a write or an append. -/
def ofEviction : Except StoreError (List File) → Response
  | .ok files => .evicted (files.map File.sent)
  | .error _ => .noEvictions

end Response

namespace Store

/-- Carries out a client's request. -/
def respond (s : Store) (owner : ClientId) : Request → Response × Store
  | .nop => (.silent, s)
  | .openFile path true lock => (s.create path owner lock).map (.status ∘ .ofResult) id
  | .openFile path false lock => (s.openFile path owner lock).map (.status ∘ .ofResult) id
  | .read path =>
    match s.read path with
    | .ok bytes => (.contents bytes, s)
    | .error _ => (.status .err, s)
  | .readN count => (.listing ((s.list count.toNat).map File.sent), s)
  | .write path contents => (s.replace path owner contents).map .ofEviction id
  | .append path contents => (s.append path owner contents).map .ofEviction id
  | .lock path => (s.lock path owner).map (.status ∘ .ofResult) id
  | .unlock path => (s.unlock path owner).map (.status ∘ .ofResult) id
  | .close path => (s.close path owner).map (.status ∘ .ofResult) id
  | .remove path => (s.remove path owner).map (.status ∘ .ofResult) id

/-- Carries out a request and sends the response as far as the sink takes it. -/
def serve (s : Store) (owner : ClientId) (request : Request) (sink : Sink) :
    Except WireFault Unit × Sink × Store :=
  let (response, s) := s.respond owner request
  let (sent, sink) := sink.putAll response.pieces
  (sent, sink, s)

end Store

end FileDepot
