import FileDepot.Address
import FileDepot.Config.Load
import FileDepot.Server.Clients
import FileDepot.Store.Summary

/-!
# The command line

The arguments of the server program, and what it does with them: it loads its configuration, opens
its log, listens, serves until it is told to stop, and prints a summary.
-/

namespace FileDepot.CommandLine

/-- What the arguments ask for. -/
inductive Request where
  | serve (config : String)
  | help
  | version
  | usageError
deriving DecidableEq, Repr

/-- The program's name and version. -/
def versionText : String :=
  "sol-server 0.1.0\n"

/-- The arguments from one on. Switches take effect at once, unless the path before them is empty;
after two dashes there are no more switches. -/
def parseFrom (config : Option String) (switches : Bool) : List String → Request
  | [] =>
    match config with
    | some path => if path = "" then .usageError else .serve path
    | none => .usageError
  | arg :: args =>
    let onSwitch (r : Request) : Request := if config = some "" then .usageError else r
    if switches && arg = "--" then parseFrom config false args
    else if switches && (arg = "--help" || arg.startsWith "-h") then onSwitch .help
    else if switches && (arg = "--version" || arg.startsWith "-V") then onSwitch .version
    else if switches && arg.startsWith "-" && arg ≠ "-" then .usageError
    else if config.isSome then .usageError
    else parseFrom (some arg) switches args

/-- What some arguments ask for. -/
def parse (args : List String) : Request :=
  parseFrom none true args

/-- A signal to the program. -/
inductive Signal where
  | hangUp
  | interrupt
  | quit
  | terminate
deriving DecidableEq, Repr

/-- A hang-up lets connected clients finish; every other signal stops everything. -/
def Signal.isSoft : Signal → Bool
  | .hangUp => true
  | _ => false

/-- What the program says about its start. -/
inductive Complaint where
  | noConfig (e : LoadError)
  /-- The log goes where complaints go. -/
  | noLog (path : String) (fault : PathFault)
deriving DecidableEq, Repr

/-- The wording of a complaint. -/
def Complaint.message : Complaint → String
  | .noConfig e => "Couldn't read the configuration file: " ++ e.message
  | .noLog path fault =>
    "Couldn't open log file " ++ path ++ ": " ++ fault.message ++ ". Logging to stderr."

/-- How far a start gets. -/
inductive Outcome where
  /-- The configuration or the path of the socket is no good. -/
  | refused
  /-- The store would have more buckets than there can be room for. -/
  | noRoom
  | serving (socket : String) (server : Server)

/-- The program after its start. -/
structure Start where
  complaint : Option Complaint := none
  /-- The files as the start has left them. -/
  folder : Folder
  outcome : Outcome := .refused

/-- The first line of a log. -/
def logOpening : String :=
  "Starting server.\n"

/-- Opens the log if it is to be a file. -/
def openLog (folder : Folder) (config : Config) : Option Complaint × Folder :=
  match config.logPath with
  | none => (none, folder)
  | some path =>
    match folder.append path (Bytes.ofText logOpening) with
    | .ok folder => (none, folder)
    | .error fault => (some (.noLog path fault), folder)

/-- Starts the server from what was loaded as its configuration. -/
def startWith (folder : Folder) (loaded : Except LoadError Config) : Start :=
  match loaded with
  | .error e => { folder, complaint := some (.noConfig e) }
  | .ok config =>
    let (complaint, folder) := openLog folder config
    match folder.bind config.socketPath with
    | (.error _, folder) => { complaint, folder }
    | (.ok (), folder) =>
      if config.placement.fits then
        { complaint, folder, outcome := .serving config.socketPath config.server }
      else { complaint, folder, outcome := .noRoom }

/-- Starts the server from a configuration file. -/
def start (folder : Folder) (path : String) : Start :=
  startWith folder (Config.load folder path)

/-- The files that are left when the program has ended. A server takes its socket away. -/
def Start.leftovers (s : Start) : Folder :=
  match s.outcome with
  | .serving socket _ => (s.folder.remove socket).toOption.getD s.folder
  | _ => s.folder

/-- The exit code of a program that has done what it was asked for. -/
def exitDone : Nat := 0

/-- The exit code of a program that is misused. -/
def exitUsage : Nat := 2

/-- The exit code of a program after its start. -/
def Outcome.exitCode : Outcome → Nat
  | .refused => 1
  | .noRoom => 101
  | .serving .. => exitDone

/-- A conversation of one client with a server that is stopped by a signal: the calls before the
signal, and those after it, which only a soft one leaves time for. -/
def converse (server : Server) (signal : Signal) (before after : List Call) :
    List (Except CallError Reply) × Summary :=
  let (i, server) := server.connect
  let callAll (server : Server) (calls : List Call) : List (Except CallError Reply) × Server :=
    calls.foldl
      (fun (replies, server) c =>
        let (reply, server) := server.call i c
        (replies ++ [reply], server))
      ([], server)
  let (first, server) := callAll server.settle before
  if signal.isSoft then
    let (second, server) := callAll server.closeDoor after
    let server := server.leave i
    (first ++ second, Summary.ofStore server.shutDown.store)
  else (first, Summary.ofStore server.stopAll.shutDown.store)

end FileDepot.CommandLine
