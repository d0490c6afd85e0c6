import FileDepot.Config.Basic
import FileDepot.Decimal.Shortest
import FileDepot.Text.Quoted
import FileDepot.Toml.Document

/-!
# Configurations from TOML

A configuration is a document with a table named server. Its fields are taken in the order of the
document, so that the first wrong one is reported, and missing ones are reported after that in the
order of their declaration. The table may also be an array of its values in that order.
-/

namespace FileDepot

/-- What is found where something else is expected. -/
inductive Found where
  | boolean (b : Bool)
  | integer (n : Int)
  | float (x : Binary64)
  | string (s : String)
  | sequence
  | map
deriving DecidableEq, Repr

/-- The wording for what is found. -/
def Found.describe : Found → String
  | .boolean b => "boolean `" ++ toString b ++ "`"
  | .integer n => "integer `" ++ toString n ++ "`"
  | .float x => "floating point `" ++ x.render ++ "`"
  | .string s => "string " ++ Text.quoted s
  | .sequence => "sequence"
  | .map => "map"

/-- What a TOML value is found to be; dates count as tables. -/
def Toml.Value.found : Toml.Value → Found
  | .string s => .string s
  | .integer n => .integer n
  | .float x => .float x
  | .boolean b => .boolean b
  | .datetime _ => .map
  | .array _ => .sequence
  | .tables _ => .sequence
  | .table _ _ => .map

/-- Why a document holds no configuration. -/
inductive DataError where
  | missingField (name : String)
  | unknownField (name : String) (expected : List String)
  | unknownVariant (name : String) (expected : List String)
  | invalidType (found : Found) (expected : String)
  | invalidValue (found : Found) (expected : String)
  /-- A choice written neither as a text nor as a table of that one name, or an array too short. -/
  | badShape
deriving DecidableEq, Repr

/-- The names that are possible. -/
def DataError.oneOf (names : List String) : String :=
  match names.map fun name => "`" ++ name ++ "`" with
  | [a] => a
  | [a, b] => a ++ " or " ++ b
  | names => "one of " ++ String.intercalate ", " names

/-- The wording of an error; a bad shape has none. -/
def DataError.message? : DataError → Option String
  | .missingField name => some ("missing field `" ++ name ++ "`")
  | .unknownField name expected =>
    some ("unknown field `" ++ name ++ "`, expected " ++ oneOf expected)
  | .unknownVariant name expected =>
    some ("unknown variant `" ++ name ++ "`, expected " ++ oneOf expected)
  | .invalidType found expected =>
    some ("invalid type: " ++ found.describe ++ ", expected " ++ expected)
  | .invalidValue found expected =>
    some ("invalid value: " ++ found.describe ++ ", expected " ++ expected)
  | .badShape => none

/-- Why a text is no valid configuration. -/
inductive ConfigError where
  | badSyntax
  | data (e : DataError)
  | invalid (why : InvalidSetting)
deriving DecidableEq, Repr

/-- A field of a configuration. -/
inductive Setting where
  | maxFiles
  | maxStorage
  | numWorkers
  | socketPath
  | policy
  | logPath
  | buckets
  | maxMessageSize
  | selection
  | writeTimeout
deriving DecidableEq, Repr

namespace Setting

/-- The field's key. -/
def key : Setting → String
  | .maxFiles => "max-files"
  | .maxStorage => "max-storage"
  | .numWorkers => "num-workers"
  | .socketPath => "socket-filepath"
  | .policy => "cache-eviction-policy"
  | .logPath => "log-filepath"
  | .buckets => "buckets"
  | .maxMessageSize => "max-message-size"
  | .selection => "worker-selection"
  | .writeTimeout => "write-timeout-ms"

/-- The fields in the order of their declaration. -/
def all : List Setting :=
  [.maxFiles, .maxStorage, .numWorkers, .socketPath, .policy, .logPath, .buckets, .maxMessageSize,
    .selection, .writeTimeout]

end Setting

/-- The fields of a configuration read so far. -/
structure ConfigDraft where
  maxFiles : Option Nat := none
  maxStorage : Option Nat := none
  numWorkers : Option Nat := none
  socketPath : Option String := none
  policy : Option Policy := none
  logPath : Option String := none
  buckets : Option Nat := none
  maxMessageSize : Option Nat := none
  selection : Option Selection := none
  writeTimeoutMs : Option Nat := none

namespace Config

/-- A number that is not negative. -/
def natural (expected : String) : Toml.Value → Except DataError Nat
  | .integer n => if n < 0 then .error (.invalidValue (.integer n) expected) else .ok n.toNat
  | v => .error (.invalidType v.found expected)

/-- A path. -/
def path : Toml.Value → Except DataError String
  | .string s => .ok s
  | v => .error (.invalidType v.found "path string")

/-- A name among some choices. -/
def choose {α : Type} (choices : List (String × α)) (name : String) : Except DataError α :=
  match choices.lookup name with
  | some a => .ok a
  | none => .error (.unknownVariant name (choices.map Prod.fst))

/-- Whether a value has nothing in it. -/
def isVoid : Toml.Value → Bool
  | .array [] | .tables [] | .table _ [] => true
  | _ => false

/-- A choice: its name, or a table of one field of that name with nothing in it. -/
def choice {α : Type} (choices : List (String × α)) : Toml.Value → Except DataError α
  | .string name => choose choices name
  | .table _ [(name, content)] => do
    let a ← choose choices name
    if isVoid content then .ok a else .error .badShape
  | _ => .error .badShape

/-- The names of the policies. -/
def policies : List (String × Policy) :=
  [("fifo", .fifo), ("segmented-fifo", .segmentedFifo)]

/-- The names of the ways to select a worker. -/
def selections : List (String × Selection) :=
  [("sticky", .sticky), ("random", .random)]

/-- Reads a field. -/
def readField (d : ConfigDraft) (setting : Setting) (v : Toml.Value) :
    Except DataError ConfigDraft :=
  match setting with
  | .maxFiles => do return { d with maxFiles := some (← natural "u64" v) }
  | .maxStorage => do return { d with maxStorage := some (← natural "u64" v) }
  | .numWorkers => do return { d with numWorkers := some (← natural "usize" v) }
  | .socketPath => do return { d with socketPath := some (← path v) }
  | .policy => do return { d with policy := some (← choice policies v) }
  | .logPath => do return { d with logPath := some (← path v) }
  | .buckets => do return { d with buckets := some (← natural "usize" v) }
  | .maxMessageSize => do return { d with maxMessageSize := some (← natural "u64" v) }
  | .selection => do return { d with selection := some (← choice selections v) }
  | .writeTimeout => do return { d with writeTimeoutMs := some (← natural "u64" v) }

/-- A field that must be given. -/
def require {α : Type} (missing : Setting → DataError) (setting : Setting) :
    Option α → Except DataError α
  | some a => .ok a
  | none => .error (missing setting)

/-- Completes a configuration with the defaults of the fields that have one. -/
def complete (missing : Setting → DataError) (d : ConfigDraft) : Except DataError Config := do
  let maxFiles ← require missing .maxFiles d.maxFiles
  let maxStorage ← require missing .maxStorage d.maxStorage
  let numWorkers ← require missing .numWorkers d.numWorkers
  let socketPath ← require missing .socketPath d.socketPath
  let policy ← require missing .policy d.policy
  let c : Config := { maxFiles, maxStorage, numWorkers, socketPath, policy }
  return { c with
    logPath := d.logPath
    buckets := d.buckets
    maxMessageSize := d.maxMessageSize.getD c.maxMessageSize
    selection := d.selection.getD c.selection
    writeTimeoutMs := d.writeTimeoutMs.getD c.writeTimeoutMs }

/-- Reads a named field. -/
def readPair (d : ConfigDraft) (pair : String × Toml.Value) : Except DataError ConfigDraft :=
  match Setting.all.find? (·.key = pair.1) with
  | some setting => readField d setting pair.2
  | none => .error (.unknownField pair.1 (Setting.all.map Setting.key))

/-- The one key by which a date is a table. -/
def dateKey : String := "$__toml_private_datetime"

/-- Reads a configuration from a table, or from an array of its values. -/
def ofValue : Toml.Value → Except DataError Config
  | .table _ fields => do complete (.missingField ·.key) (← fields.foldlM readPair {})
  | .array items | .tables items => do
    let d ← (Setting.all.zip items).foldlM (fun d (setting, v) => readField d setting v) {}
    complete (fun _ => .badShape) d
  | .datetime _ => .error (.unknownField dateKey (Setting.all.map Setting.key))
  | v => .error (.invalidType v.found "struct Config")

/-- The key of the table that holds the settings. -/
def tableKey : String := "server"

/-- Reads a configuration from the fields of a document. -/
def ofFields (fields : List (String × Toml.Value)) : Except DataError Config := do
  let read (_ : Option Config) (pair : String × Toml.Value) : Except DataError (Option Config) :=
    if pair.1 = tableKey then (ofValue pair.2).map some
    else .error (.unknownField pair.1 [tableKey])
  match ← fields.foldlM read none with
  | some c => .ok c
  | none => .error (.missingField tableKey)

/-- Reads a configuration from the fields of a document and checks its bounds. -/
def ofDocument (fields : List (String × Toml.Value)) : Except ConfigError Config :=
  match ofFields fields with
  | .error e => .error (.data e)
  | .ok c =>
    match c.firstInvalid with
    | some why => .error (.invalid why)
    | none => .ok c

/-- Reads a configuration from a text and checks its bounds. -/
def parse (text : String) : Except ConfigError Config :=
  match Toml.parse? text with
  | none => .error .badSyntax
  | some fields => ofDocument fields

end Config

end FileDepot
