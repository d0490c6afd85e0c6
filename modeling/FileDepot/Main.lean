import FileDepot.CommandLine

/-!
# The program

The server for one client, whose end of the stream is the program's standard input and output. It
reads its configuration, serves until the input ends, and then prints the summary.
-/

namespace FileDepot.Program

/-- How the program is called. -/
def usage : String :=
  "Usage: sol-server <CONFIG>\n"

/-- What the system finds at a path. -/
def contentsAt (path : String) : IO (Except PathFault Bytes) := do
  match ← (IO.FS.readBinFile path).toBaseIO with
  | .ok bytes => return .ok bytes.toList
  | .error (.inappropriateType ..) => return .error .isDirectory
  | .error _ => return .error .missing

/-- Serves the client until its input ends. -/
partial def converse (server : Server) (stream : StreamId) : IO Server := do
  let input ← (← IO.getStdin).read 65536
  if input.isEmpty then return server.leave stream
  let server := ((server.clientSend stream input.toList).getD server).settle
  let (answer, ended, server) := server.clientReceive stream
  let output ← IO.getStdout
  output.write ⟨answer.toArray⟩
  output.flush
  if ended then return server.leave stream
  converse server stream

/-- Starts the server, serves the client and prints the summary. -/
def serve (path : String) : IO UInt32 := do
  let start := CommandLine.startWith {} (Config.ofContents path (← contentsAt path))
  for complaint in start.complaint.toList do
    IO.eprintln complaint.message
  match start.outcome with
  | .refused => pure ()
  | .noRoom => IO.eprintln Bytes.overflowMessage
  | .serving _ server =>
    let (stream, server) := server.connect
    let server ← converse server.settle stream
    IO.print (Summary.ofStore server.shutDown.store).render
  return UInt32.ofNat start.outcome.exitCode

end FileDepot.Program

open FileDepot in
/-- Does what the arguments ask for. -/
def main (args : List String) : IO UInt32 := do
  match CommandLine.parse args with
  | .serve path => Program.serve path
  | .help =>
    IO.print Program.usage
    return UInt32.ofNat CommandLine.exitDone
  | .version =>
    IO.print CommandLine.versionText
    return UInt32.ofNat CommandLine.exitDone
  | .usageError =>
    IO.eprint Program.usage
    return UInt32.ofNat CommandLine.exitUsage
