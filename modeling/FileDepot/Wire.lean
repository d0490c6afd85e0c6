import FileDepot.Bytes

/-!
# Wires

Writing to and reading from the byte streams between clients and the server.
-/

namespace FileDepot

/-- Why a write or a read falls short. -/
inductive WireFault where
  /-- The destination takes no more bytes. -/
  | full
  /-- A field of fixed size is cut short. -/
  | cutShort
  /-- A field of declared size is cut short. -/
  | ended
deriving DecidableEq, Repr

/-- The wording of a fault. -/
def WireFault.message : WireFault → String
  | .full => "failed to write whole buffer"
  | .cutShort => "failed to fill whole buffer"
  | .ended => "unexpected end of file"

/-- A destination for bytes, with room for `capacity` of them if that is bounded. -/
structure Sink where
  capacity : Option Nat := none
  written : Bytes := []

namespace Sink

/-- Writes some bytes, or as many as there is room for. -/
def put (s : Sink) (bytes : Bytes) : Except WireFault Unit × Sink :=
  match s.capacity with
  | none => (.ok (), { s with written := s.written ++ bytes })
  | some capacity =>
    let room := capacity - s.written.length
    if bytes.length ≤ room then (.ok (), { s with written := s.written ++ bytes })
    else (.error .full, { s with written := s.written ++ bytes.take room })

/-- Writes pieces in turn, up to the first that does not fit. -/
def putAll (s : Sink) : List Bytes → Except WireFault Unit × Sink
  | [] => (.ok (), s)
  | piece :: pieces =>
    match s.put piece with
    | (.ok (), s) => s.putAll pieces
    | (.error e, s) => (.error e, s)

end Sink

/-- Reads from a stream, and leaves the rest of it. -/
abbrev Reader (ε α : Type) := Bytes → Except ε α × Bytes

namespace Reader

/-- A field of `size` bytes. A stream that ends before uses up all of it. -/
def exactly (size : Nat) : Reader WireFault Bytes := fun input =>
  if size ≤ input.length then (.ok (input.take size), input.drop size) else (.error .cutShort, [])

/-- A field whose size was declared by the sender. -/
def declared (size : Nat) : Reader WireFault Bytes := fun input =>
  if size ≤ input.length then (.ok (input.take size), input.drop size) else (.error .ended, [])

/-- A number of eight bytes. -/
def word : Reader WireFault Nat := fun input =>
  (exactly Bytes.wordSize input).map (Except.map Bytes.ofWord) id

end Reader

end FileDepot
