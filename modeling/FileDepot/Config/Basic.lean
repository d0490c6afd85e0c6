import FileDepot.Server.Basic

/-!
# Configurations

The settings of a server, and the bounds they must keep.
-/

namespace FileDepot

/-- The settings of a server. -/
structure Config where
  maxFiles : Nat
  maxStorage : Nat
  numWorkers : Nat
  socketPath : String
  policy : Policy
  logPath : Option String := none
  buckets : Option Nat := none
  maxMessageSize : Nat := Frame.defaultLimit
  selection : Selection := .sticky
  writeTimeoutMs : Nat := 5000
deriving DecidableEq, Repr

/-- The most workers a server may have. -/
def Config.maxWorkers : Nat := 32

/-- The most buckets a store has unless more are asked for. -/
def Config.defaultMaxBuckets : Nat := 4096

/-- A bound that a setting breaks. -/
inductive InvalidSetting where
  | maxFiles
  | maxStorage
  | numWorkers (got : Nat)
  | socketPath
  | buckets
  | maxMessageSize
  | writeTimeout
deriving DecidableEq, Repr

/-- The wording of a broken bound. -/
def InvalidSetting.message : InvalidSetting → String
  | .maxFiles => "max-files must be positive"
  | .maxStorage => "max-storage must be positive"
  | .numWorkers got =>
    "num-workers must be between 1 and " ++ toString Config.maxWorkers ++ ", got " ++ toString got
  | .socketPath => "socket-filepath must not be empty"
  | .buckets => "buckets must be positive"
  | .maxMessageSize => "max-message-size must be positive"
  | .writeTimeout => "write-timeout-ms must be positive"

namespace Config

/-- The first bound that is broken, if any is. -/
def firstInvalid (c : Config) : Option InvalidSetting :=
  if c.maxFiles = 0 then some .maxFiles
  else if c.maxStorage = 0 then some .maxStorage
  else if c.numWorkers = 0 ∨ maxWorkers < c.numWorkers then some (.numWorkers c.numWorkers)
  else if c.socketPath = "" then some .socketPath
  else if c.buckets = some 0 then some .buckets
  else if c.maxMessageSize = 0 then some .maxMessageSize
  else if c.writeTimeoutMs = 0 then some .writeTimeout
  else none

/-- The number of buckets: as asked for, or one for each file up to a bound. -/
def bucketCount (c : Config) : Nat :=
  c.buckets.getD (min c.maxFiles defaultMaxBuckets)

/-- The buckets of the store. -/
def placement (c : Config) : Placement :=
  .hashed c.bucketCount

/-- A server with these settings and an empty store. The dice serve the segmented policy and the
random selection. -/
def server (c : Config) (dice : Dice := ⟨fun _ => 0, 0⟩) : Server where
  settings := { maxMessage := c.maxMessageSize, selection := c.selection }
  store := .empty (UInt64.ofNat c.maxFiles) (UInt64.ofNat c.maxStorage) c.placement
    c.policy dice
  workers := List.replicate c.numWorkers {}
  dice

end Config

end FileDepot
