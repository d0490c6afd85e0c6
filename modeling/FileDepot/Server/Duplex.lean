import FileDepot.Bytes

/-!
# Two-way streams

The stream between a client and the server. Each direction is kept as all the bytes ever sent and
the number of them taken so far. The server's end is shared: it closes when its last holder lets
go of it.
-/

namespace FileDepot

/-- One direction of a stream. -/
structure Pipe where
  bytes : Bytes := []
  taken : Nat := 0

namespace Pipe

/-- The bytes not taken yet. -/
def unread (p : Pipe) : Bytes :=
  p.bytes.drop p.taken

/-- Sends bytes. -/
def send (p : Pipe) (bytes : Bytes) : Pipe :=
  { p with bytes := p.bytes ++ bytes }

/-- Takes at most `count` bytes. -/
def take (p : Pipe) (count : Nat) : Bytes × Pipe :=
  let bytes := p.unread.take count
  (bytes, { p with taken := p.taken + bytes.length })

end Pipe

/-- A stream between a client and the server. -/
structure Duplex where
  /-- What the client sends. -/
  up : Pipe := {}
  /-- What the server sends. -/
  down : Pipe := {}
  /-- The client sends no more. -/
  upEnded : Bool := false
  /-- The client still has its end. -/
  clientOpen : Bool := true
  /-- The server has ended both directions. -/
  hungUp : Bool := false
  /-- How many parts of the server hold its end. -/
  holders : Nat := 1

namespace Duplex

/-- Whether the server still has its end. -/
def serverOpen (d : Duplex) : Bool :=
  d.holders ≠ 0

/-- Whether the server can read bytes or the end of what the client sends. -/
def readable (d : Duplex) : Bool :=
  !d.up.unread.isEmpty || d.upEnded || d.hungUp

/-- Sends bytes to the server, unless this direction has come to an end; whether it has is not
found out by sending nothing. -/
def clientSend (d : Duplex) (bytes : Bytes) : Option Duplex :=
  if bytes.isEmpty || (d.serverOpen && !d.hungUp && !d.upEnded) then
    some { d with up := d.up.send bytes }
  else none

/-- Ends what the client sends. -/
def halfClose (d : Duplex) : Duplex :=
  { d with upEnded := true }

/-- Gives up the client's end. -/
def clientClose (d : Duplex) : Duplex :=
  { d with upEnded := true, clientOpen := false }

/-- Whether nothing more can come from the server. -/
def downEnded (d : Duplex) : Bool :=
  d.hungUp || !d.serverOpen

/-- Takes all that the client can read now. -/
def clientReceive (d : Duplex) : Bytes × Duplex :=
  let (bytes, down) := d.down.take d.down.unread.length
  (bytes, { d with down })

/-- Ends both directions, from the server's side. -/
def hangUp (d : Duplex) : Duplex :=
  { d with hungUp := true }

/-- Sends bytes to the client. A client that is gone, or was hung up on, gets none, and the server
hangs up. -/
def serverSend (d : Duplex) (bytes : Bytes) : Duplex :=
  if d.clientOpen && !d.hungUp then { d with down := d.down.send bytes } else d.hangUp

/-- One more holder of the server's end. -/
def hold (d : Duplex) : Duplex :=
  { d with holders := d.holders + 1 }

/-- One holder less. -/
def drop (d : Duplex) : Duplex :=
  { d with holders := d.holders - 1 }

end Duplex

end FileDepot
