import FileDepot.Bytes

/-!
# Frames

Messages arrive as frames: the length of the payload as eight bytes, then the payload. A reader
takes the bytes of a connection in pieces of any size and never asks for a byte beyond the message
at hand.
-/

namespace FileDepot

namespace Frame

/-- The number of bytes in a frame's header. -/
def headerSize : Nat := Bytes.wordSize

/-- The largest payload taken unless another limit is set: 64 MiB. -/
def defaultLimit : Nat := 64 * 1024 * 1024

/-- The frame of a payload. -/
def encode (payload : Bytes) : Bytes :=
  Bytes.word payload.length ++ payload

end Frame

/-- Why a reader of frames refuses bytes. -/
inductive FrameFault where
  /-- A header declares a payload over the limit. The stream cannot be followed any further. -/
  | tooLarge (declared limit : Nat)
  /-- A header declares a payload within the limit that no buffer can hold. -/
  | overCapacity (declared : Nat)
  /-- More bytes are reported than were asked for. -/
  | overrun (count missing : Nat)
deriving DecidableEq, Repr

/-- The wording of a refusal. -/
def FrameFault.message : FrameFault → String
  | .tooLarge declared limit =>
    "declared message length " ++ toString declared ++ " exceeds the limit of " ++ toString limit
      ++ " bytes"
  | .overCapacity _ => Bytes.overflowMessage
  | .overrun count missing =>
    "fed " ++ toString count ++ " bytes, but only " ++ toString missing ++ " were requested"

/-- Whether a refusal is a panic: it is not an answer, and ends whatever has fed the reader. -/
def FrameFault.panics : FrameFault → Bool
  | .tooLarge .. => false
  | .overCapacity _ | .overrun .. => true

/-- What is known after new bytes. -/
inductive Progress where
  /-- So many bytes are missing from the header, or from the payload once the header is known. -/
  | needs (missing : Nat)
  /-- The payload of a whole message. -/
  | message (payload : Bytes)
deriving DecidableEq, Repr

/-- The part of a frame received so far. -/
inductive Received where
  | header (bytes : Bytes)
  | payload (length : Nat) (bytes : Bytes)
deriving DecidableEq, Repr

/-- The state of one connection's framing. Between messages the header is empty. -/
structure FrameReader where
  limit : Nat := Frame.defaultLimit
  received : Received := .header []
  /-- Bytes at the start of the sink that have been written and not been reported. -/
  draft : Bytes := []
deriving DecidableEq, Repr

namespace FrameReader

/-- The number of bytes wanted next. -/
def wanted (r : FrameReader) : Nat :=
  match r.received with
  | .header bytes => Frame.headerSize - bytes.length
  | .payload length bytes => length - bytes.length

/-- Whether the reader is between messages. -/
def isIdle (r : FrameReader) : Bool :=
  r.received = .header []

/-- The first `count` bytes of the sink, which holds zeros where nothing has been written. -/
def sinkPrefix (r : FrameReader) (count : Nat) : Bytes :=
  r.draft.take count ++ List.replicate (count - r.draft.length) 0

/-- The sink for new bytes, as long as the number of bytes wanted. -/
def sink (r : FrameReader) : Bytes :=
  r.sinkPrefix r.wanted

/-- Writes to the start of the sink as much as fits, and reports none of it. -/
def write (r : FrameReader) (bytes : Bytes) : FrameReader :=
  let fitting := bytes.take r.wanted
  { r with draft := fitting ++ r.draft.drop fitting.length }

/-- The reader after a whole message. -/
def reset (r : FrameReader) : FrameReader :=
  { limit := r.limit }

/-- Takes the first `count` bytes of the sink into the message. A header that is refused stays, and
is refused again each time. -/
def advance (r : FrameReader) (count : Nat) : Except FrameFault Progress × FrameReader :=
  if r.wanted < count then (.error (.overrun count r.wanted), r)
  else
    let fed := r.sinkPrefix count
    let draft := r.draft.drop count
    match r.received with
    | .header bytes =>
      let bytes := bytes ++ fed
      if bytes.length < Frame.headerSize then
        (.ok (.needs (Frame.headerSize - bytes.length)),
          { r with received := .header bytes, draft })
      else
        let declared := Bytes.ofWord bytes
        if r.limit < declared then
          (.error (.tooLarge declared r.limit), { r with received := .header bytes, draft })
        else if Bytes.maxSize < declared then
          (.error (.overCapacity declared), { r with received := .header bytes, draft })
        else if declared = 0 then (.ok (.message []), r.reset)
        else (.ok (.needs declared), { r with received := .payload declared [], draft := [] })
    | .payload length bytes =>
      let bytes := bytes ++ fed
      if bytes.length < length then
        (.ok (.needs (length - bytes.length)),
          { r with received := .payload length bytes, draft })
      else (.ok (.message bytes), r.reset)

/-- Takes as many of the given bytes as are wanted. The answer has their number. -/
def offer (r : FrameReader) (bytes : Bytes) : Except FrameFault (Nat × Progress) × FrameReader :=
  let count := min bytes.length r.wanted
  ((r.write bytes).advance count).map (Except.map (count, ·)) id

/-- The outcome of a stream: the payloads of its messages, the refusal that ended it, if any, and
the bytes not taken. -/
structure Intake where
  messages : List Bytes := []
  failed : Option FrameFault := none
  left : Bytes := []

/-- Offers pieces of at most `chunk` bytes until none are left or one is refused; at least one byte
of every piece is taken, so the number of bytes bounds the number of pieces. -/
def intakeUpTo (chunk : Nat) : Nat → FrameReader → Bytes → Intake × FrameReader
  | 0, r, bytes => ({ left := bytes }, r)
  | fuel + 1, r, bytes =>
    if bytes.isEmpty then ({}, r)
    else
      match r.offer (bytes.take chunk) with
      | (.error e, r) => ({ failed := some e, left := bytes }, r)
      | (.ok (count, .needs _), r) => intakeUpTo chunk fuel r (bytes.drop count)
      | (.ok (count, .message payload), r) =>
        let (rest, r) := intakeUpTo chunk fuel r (bytes.drop count)
        ({ rest with messages := payload :: rest.messages }, r)

/-- Takes a whole stream in pieces of at most `chunk` bytes. -/
def intake (r : FrameReader) (chunk : Nat) (bytes : Bytes) : Intake × FrameReader :=
  intakeUpTo chunk (bytes.length + 1) r bytes

end FrameReader

end FileDepot
