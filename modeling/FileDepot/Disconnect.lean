/-!
# Disconnections

Errors that only mean that a client has gone away; a server expects them at any time.
-/

namespace FileDepot

/-- What an error of the system is about. -/
inductive SystemError where
  | brokenPipe
  | connectionReset
  | notConnected
  | other
deriving DecidableEq, Repr

namespace SystemError

/-- The error of a number. -/
def ofNumber (n : Int) : SystemError :=
  if n = 32 then .brokenPipe
  else if n = 104 then .connectionReset
  else if n = 107 then .notConnected
  else .other

/-- Whether an error means that a client has gone away. -/
def meansDisconnect : SystemError → Bool
  | .brokenPipe | .connectionReset | .notConnected => true
  | .other => false

end SystemError

end FileDepot
