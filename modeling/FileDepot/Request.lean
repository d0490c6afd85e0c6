import FileDepot.Bytes

/-!
# Requests

What clients ask for, and its written form. A payload starts with an opcode. Requests on one path
end with the path; writes and appends have the lengths of path and contents, then both; a listing
has a count. An empty payload asks for nothing.
-/

namespace FileDepot

/-- The first byte of a request. -/
inductive Opcode where
  | openFile
  | openFileCreate
  | openFileLock
  | openFileCreateLock
  | readFile
  | readNFiles
  | writeFile
  | appendToFile
  | lockFile
  | unlockFile
  | closeFile
  | removeFile
deriving DecidableEq, Repr

namespace Opcode

/-- The byte of an opcode; 0 and 1 are not in use. -/
def toByte : Opcode → UInt8
  | .openFile => 2
  | .openFileCreate => 3
  | .openFileLock => 4
  | .openFileCreateLock => 5
  | .readFile => 6
  | .readNFiles => 7
  | .writeFile => 8
  | .appendToFile => 9
  | .lockFile => 10
  | .unlockFile => 11
  | .closeFile => 12
  | .removeFile => 13

/-- Every opcode, in the order of their bytes. -/
def all : List Opcode :=
  [.openFile, .openFileCreate, .openFileLock, .openFileCreateLock, .readFile, .readNFiles,
    .writeFile, .appendToFile, .lockFile, .unlockFile, .closeFile, .removeFile]

/-- The opcode of a byte. -/
def ofByte? (b : UInt8) : Option Opcode :=
  all.find? (·.toByte = b)

/-- The opcode's name in messages. -/
def name : Opcode → String
  | .openFile => "OpenFile"
  | .openFileCreate => "OpenFileCreate"
  | .openFileLock => "OpenFileLock"
  | .openFileCreateLock => "OpenFileCreateLock"
  | .readFile => "ReadFile"
  | .readNFiles => "ReadNFiles"
  | .writeFile => "WriteFile"
  | .appendToFile => "AppendToFile"
  | .lockFile => "LockFile"
  | .unlockFile => "UnlockFile"
  | .closeFile => "CloseFile"
  | .removeFile => "RemoveFile"

end Opcode

/-- A client's request. -/
inductive Request where
  | nop
  | openFile (path : String) (create lock : Bool)
  | read (path : String)
  /-- Asks for the first `count` files, or for all of them if `count` is 0. -/
  | readN (count : UInt64)
  | write (path : String) (contents : Bytes)
  | append (path : String) (contents : Bytes)
  | lock (path : String)
  | unlock (path : String)
  | close (path : String)
  | remove (path : String)
deriving DecidableEq, Repr

/-- Why a payload is no request. -/
inductive RequestError where
  | unknownOpcode (byte : UInt8)
  | malformed (opcode : Opcode)
  | badPath
deriving DecidableEq, Repr

/-- The wording of a refusal. -/
def RequestError.message : RequestError → String
  | .unknownOpcode byte => "unknown opcode " ++ toString byte.toNat
  | .malformed opcode => "malformed " ++ opcode.name ++ " request"
  | .badPath => "path is empty or not valid UTF-8"

namespace Request

/-- The opcode of a request, if it has any. -/
def opcode? : Request → Option Opcode
  | .nop => none
  | .openFile _ false false => some .openFile
  | .openFile _ true false => some .openFileCreate
  | .openFile _ false true => some .openFileLock
  | .openFile _ true true => some .openFileCreateLock
  | .read _ => some .readFile
  | .readN _ => some .readNFiles
  | .write .. => some .writeFile
  | .append .. => some .appendToFile
  | .lock _ => some .lockFile
  | .unlock _ => some .unlockFile
  | .close _ => some .closeFile
  | .remove _ => some .removeFile

/-- The written form of a path and contents. -/
def encodePair (path : String) (contents : Bytes) : Bytes :=
  Bytes.word (Bytes.ofText path).length ++ Bytes.word contents.length
    ++ Bytes.ofText path ++ contents

/-- The written form of a request after its opcode. -/
def encodeArguments : Request → Bytes
  | .nop => []
  | .openFile path _ _ | .read path | .lock path | .unlock path | .close path | .remove path =>
    Bytes.ofText path
  | .readN count => Bytes.word count.toNat
  | .write path contents | .append path contents => encodePair path contents

/-- The payload of a request. -/
def encode (r : Request) : Bytes :=
  (r.opcode?.map Opcode.toByte).toList ++ r.encodeArguments

/-- A path is a text of at least one byte: an empty one could not be told from the end of a
listing. -/
def decodePath (bytes : Bytes) : Except RequestError String :=
  if bytes.isEmpty then .error .badPath
  else
    match Bytes.toText? bytes with
    | some path => .ok path
    | none => .error .badPath

/-- Reads the lengths of a path and contents, which must add up to exactly what follows. -/
def decodePair (opcode : Opcode) (bytes : Bytes) : Except RequestError (String × Bytes) :=
  if bytes.length < 2 * Bytes.wordSize then .error (.malformed opcode)
  else
    let pathLength := Bytes.ofWord (bytes.take Bytes.wordSize)
    let contentsLength := Bytes.ofWord ((bytes.drop Bytes.wordSize).take Bytes.wordSize)
    let rest := bytes.drop (2 * Bytes.wordSize)
    if pathLength + contentsLength = rest.length then
      (decodePath (rest.take pathLength)).map (·, rest.drop pathLength)
    else .error (.malformed opcode)

/-- Reads what follows an opcode. -/
def decodeArguments (opcode : Opcode) (bytes : Bytes) : Except RequestError Request :=
  match opcode with
  | .openFile => (decodePath bytes).map (.openFile · false false)
  | .openFileCreate => (decodePath bytes).map (.openFile · true false)
  | .openFileLock => (decodePath bytes).map (.openFile · false true)
  | .openFileCreateLock => (decodePath bytes).map (.openFile · true true)
  | .readFile => (decodePath bytes).map .read
  | .readNFiles =>
    if bytes.length = Bytes.wordSize then .ok (.readN (UInt64.ofNat (Bytes.ofWord bytes)))
    else .error (.malformed opcode)
  | .writeFile => (decodePair opcode bytes).map fun (path, contents) => .write path contents
  | .appendToFile => (decodePair opcode bytes).map fun (path, contents) => .append path contents
  | .lockFile => (decodePath bytes).map .lock
  | .unlockFile => (decodePath bytes).map .unlock
  | .closeFile => (decodePath bytes).map .close
  | .removeFile => (decodePath bytes).map .remove

/-- Reads a payload. -/
def decode : Bytes → Except RequestError Request
  | [] => .ok .nop
  | byte :: bytes =>
    match Opcode.ofByte? byte with
    | none => .error (.unknownOpcode byte)
    | some opcode => decodeArguments opcode bytes

end Request

end FileDepot
