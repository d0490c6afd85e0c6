import FileDepot.Config.Decode
import FileDepot.Folder

/-!
# Configuration files
-/

namespace FileDepot

/-- Why a configuration file cannot be used. -/
inductive LoadError where
  | unreadable (path : String) (fault : PathFault)
  | config (e : ConfigError)
deriving DecidableEq, Repr

/-- The wording of an error in a configuration; syntax errors and bad shapes have none. -/
def ConfigError.message? : ConfigError → Option String
  | .badSyntax => none
  | .data e => e.message?
  | .invalid why => some ("invalid configuration: " ++ why.message)

/-- Whether a configuration could not be read out of its text, let alone be checked. -/
def ConfigError.isUnparsed : ConfigError → Bool
  | .badSyntax | .data _ => true
  | .invalid _ => false

/-- The wording of an error. -/
def LoadError.message : LoadError → String
  | .unreadable path fault =>
    "failed to read configuration file " ++ path ++ ": " ++ fault.message
  | .config e =>
    let detail := e.message?
    if e.isUnparsed then "failed to parse configuration" ++ (detail.map (": " ++ ·)).getD ""
    else detail.getD ""

/-- Reads and checks what was found at the path of a configuration file. -/
def Config.ofContents (path : String) : Except PathFault Bytes → Except LoadError Config
  | .error fault => .error (.unreadable path fault)
  | .ok bytes =>
    match Bytes.toText? bytes with
    | none => .error (.unreadable path .notText)
    | some text => (Config.parse text).mapError .config

/-- Reads and checks the configuration file at a path. -/
def Config.load (folder : Folder) (path : String) : Except LoadError Config :=
  Config.ofContents path (folder.read path)

end FileDepot
