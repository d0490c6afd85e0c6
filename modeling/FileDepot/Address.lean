import FileDepot.Folder

/-!
# Socket addresses

A server listens at a path, and clients connect to it. The path has to fit into an address; the
empty one is an address too, but one without a name, which nobody can connect to.
-/

namespace FileDepot

/-- Why a socket address cannot be used. -/
inductive AddressFault where
  | innerNul
  | tooLong
  | unnamed
  | path (fault : PathFault)
deriving DecidableEq, Repr

namespace AddressFault

/-- The wording of a fault. -/
def message : AddressFault → String
  | .innerNul => "paths must not contain interior null bytes"
  | .tooLong => "path must be shorter than SUN_LEN"
  | .unnamed => "Invalid argument (os error 22)"
  | .path fault => fault.message

end AddressFault

namespace Address

/-- One more than the longest path of a socket in bytes. -/
def sizeLimit : Nat := 108

/-- Checks that a path can be written as an address. -/
def check (path : String) : Except AddressFault Unit :=
  if path.any (· = '\x00') then .error .innerNul
  else if sizeLimit ≤ path.utf8ByteSize then .error .tooLong
  else .ok ()

/-- Checks that a path can be connected to. -/
def checkNamed (path : String) : Except AddressFault Unit := do
  check path
  if path = "" then .error .unnamed else .ok ()

end Address

namespace Folder

/-- Makes a socket at a path where there is no file. A socket is a file without contents. -/
def listen (folder : Folder) (path : String) : Except AddressFault Folder := do
  Address.check path
  if path = "" then .ok folder
  else
    match folder.follow path with
    | .ok (.entry e false) => .ok (folder.put e [])
    | _ => .error (.path .missing)

/-- The folder without a file at a path, whether there was one or not. -/
def clear (folder : Folder) (path : String) : Except PathFault Folder :=
  match folder.remove path with
  | .error .missing => .ok folder
  | cleared => cleared

/-- Listens at a path. A file left there is removed first, also if nothing comes of the rest. -/
def bind (folder : Folder) (path : String) : Except AddressFault Unit × Folder :=
  match folder.clear path with
  | .error fault => (.error (.path fault), folder)
  | .ok folder =>
    match folder.listen path with
    | .ok folder => (.ok (), folder)
    | .error fault => (.error fault, folder)

end Folder

/-- Why a client does not get a connection. -/
inductive ConnectError where
  | timedOut (path : String)
  | address (fault : AddressFault)
deriving DecidableEq, Repr

/-- The wording of a failed connection. -/
def ConnectError.message : ConnectError → String
  | .timedOut path => "timed out connecting to " ++ path
  | .address fault => "I/O error: " ++ fault.message

/-- Connects to a path where nobody listens: a wait that comes to nothing unless the address is no
good. -/
def Address.connectNobody (path : String) : ConnectError :=
  match Address.checkNamed path with
  | .error fault => .address fault
  | .ok () => .timedOut path

end FileDepot
