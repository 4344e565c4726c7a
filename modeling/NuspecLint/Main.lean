import NuspecLint.Client.Rpc
import NuspecLint.Command.Line

/-!
# The program

The outer layer: it takes a snapshot of the files that matter and of what is closed to it, hands it
to the library, and prints what comes back.
-/

namespace NuspecLint
namespace Program

/-- How a command line is to be written. -/
def usage : String :=
  "Usage: nuspec-ls [--help] COMMAND [ARGS]...\n\n" ++
  "  check PATHS...           Check manifest files and directories.\n" ++
  "  serve [--log-level L]    Run the language server on the standard channels.\n"

/-- The path of a place. -/
def pathOf (place : Location) : Path :=
  ⟨.root, place⟩

/-- What looking at a place of the disk comes to; what is closed to reading has no contents. -/
inductive Sight where
  | nothing
  /-- The directory that holds the place is closed to passing. -/
  | hidden
  | file (bytes : Option (List UInt8))
  | directory (names : Option (List String))

/-- What reading comes to, unless it is not permitted. -/
def permitted? {α : Type} (reading : IO α) : IO (Option α) := do
  try
    return some (← reading)
  catch
    | .permissionDenied .. => return none
    | other => throw other

/-- Look at a place of the disk. -/
def look (place : Location) : IO Sight := do
  try
    match ← permitted? (IO.FS.realPath (pathOf place).text >>= fun p => do
        return (p, ← p.metadata)) with
    | none => return .hidden
    | some (target, found) =>
        match found.type with
        | .dir =>
            let entries ← permitted? target.readDir
            return .directory (entries.map fun names => names.toList.map (·.fileName))
        | _ =>
            let bytes ← permitted? (IO.FS.readBinFile target)
            return .file (bytes.map (·.toList))
  catch _ => return .nothing

/-- Add what is at a place to a snapshot, and what is closed there. -/
def record (files : FileSystem) (place : Location) : IO FileSystem := do
  match ← look place with
  | .nothing => return files
  | .hidden => return files.close place.dropLast .passing
  | .file (some bytes) => return files.writeFile place bytes
  | .file none => return (files.writeFile place []).close place .reading
  | .directory (some _) => return files.makeDirectory place
  | .directory none => return (files.makeDirectory place).close place .reading

/-- Add a directory and the files that decide on the configuration in it. -/
def recordSettings (files : FileSystem) (directory : Location) : IO FileSystem := do
  let mut files ← record files directory
  for name in Workspace.repositoryMark :: Workspace.configNames do
    files ← record files (directory ++ [name])
  return files

/-- The name belongs to a file that the program may read. -/
def isRelevant (name : String) : Bool :=
  Workspace.isManifest name || Workspace.configNames.contains name

/-- Add everything below a directory that may matter. -/
partial def recordBelow (files : FileSystem) (directory : Location) : IO FileSystem := do
  match ← look directory with
  | .directory (some names) =>
      let mut files := files.makeDirectory directory
      for name in names do
        let place := directory ++ [name]
        if isRelevant name then files ← record files place
        if Workspace.skippedNames.contains name then files := files.makeDirectory place
        else files ← recordBelow files place
      return files
  | .hidden => return files.close directory.dropLast .passing
  | .directory none => return (files.makeDirectory directory).close directory .reading
  | _ => return files

/-- Add what is at a path and the settings around it. -/
def recordAround (files : FileSystem) (path : Path) : IO FileSystem := do
  let mut files := files
  for ancestor in path.ancestors do
    files ← recordSettings files ancestor.resolve
  return files

/-- A snapshot for the paths of a command line: what is at, around and below them. -/
def snapshot (cwd : Path) (paths : List Path) : IO Workspace := do
  let mut files := FileSystem.empty
  for path in paths do
    let path := path.absolute cwd
    files ← recordAround files path
    files ← recordBelow files path.resolve
  return ⟨files, cwd, .usual⟩

/-- A snapshot for a request: what is at and around the path of its document. -/
def snapshotFor (cwd : Path) (request : Request) : IO Workspace := do
  match request with
  | .event e =>
      match Uri.documentPath e.uri with
      | .ok path => return ⟨← recordAround .empty (path.absolute cwd), cwd, .usual⟩
      | .error _ => return ⟨.empty, cwd, .usual⟩
  | _ => return ⟨.empty, cwd, .usual⟩

/-- The working directory. -/
def workingDirectory : IO Path := do
  return Path.ofString (← IO.currentDir).toString

/-- Run the check command. -/
def check (arguments : List String) : IO UInt32 := do
  let paths := arguments.map Path.ofString
  let report := (← snapshot (← workingDirectory) paths).check paths
  for line in report.output do IO.println line
  for line in report.errors do IO.eprintln line
  for cause in report.breakdown do IO.eprintln cause.message
  return UInt32.ofNat report.exitCode

/-- The length that the header of a message gives; none at the end of the input. -/
partial def readHeader (input : IO.FS.Stream) (length : Option Nat) : IO (Option Nat) := do
  let line ← input.getLine
  if line.isEmpty then return none
  let text := line.trimAscii.toString
  if text.isEmpty then return length
  match text.splitOn ": " with
  | [name, value] =>
      readHeader input (if name.toLower = "content-length" then value.toNat? else length)
  | _ => readHeader input length

/-- Read exactly as many bytes as wanted, or fewer at the end of the input. -/
partial def readBody (input : IO.FS.Stream) (wanted : Nat) (bytes : ByteArray) :
    IO ByteArray := do
  if wanted = 0 then return bytes
  let more ← input.read (USize.ofNat wanted)
  if more.isEmpty then return bytes
  readBody input (wanted - more.size) (bytes ++ more)

/-- Send an encoded message. -/
def send (message : String) : IO Unit := do
  let output ← IO.getStdout
  output.putStr message
  output.flush

/-- Write the records of at least the wanted rank. -/
def writeLog (rank : Nat) (records : List Record) : IO Unit := do
  for r in records do
    if rank ≤ r.level.rank then IO.eprintln r.line

/-- Answer calls until the input ends or the client leaves. -/
partial def serveLoop (cwd : Path) (rank : Nat) (session : Session) : IO Unit := do
  let input ← IO.getStdin
  match ← readHeader input none with
  | none => return ()
  | some length =>
      let body ← readBody input length ByteArray.empty
      let value := (Json.read? (Utf8.decodeReplacing body.toList)).getD .absent
      match Call.ofValue Host.usual.showing value with
      | .exit => return ()
      | .ignored => serveLoop cwd rank session
      | .shutdown id =>
          send (frame (Call.emptyAnswer id))
          serveLoop cwd rank session
      | .unknown id method =>
          send (frame (Call.refusal id method))
          serveLoop cwd rank session
      | .request request =>
          let done := session.handle (← snapshotFor cwd request) request
          writeLog rank done.records
          for message in done.value.2 do send message.encode
          serveLoop cwd rank done.value.1

/-- Run the serve command. -/
def serve (level : String) : IO UInt32 := do
  match wantedRank level with
  | .error u =>
      IO.eprintln u.message
      return 1
  | .ok rank =>
      writeLog rank [startRecord]
      serveLoop (← workingDirectory) rank (Session.begin .configured)
      return 0

/-- Run a command. -/
def run : Command → IO UInt32
  | .misuse => do
      IO.eprint usage
      return 2
  | .help => do
      IO.print usage
      return 0
  | .check paths => check paths
  | .serve level => serve level

end Program
end NuspecLint

/-- Run the command that the arguments stand for. -/
def main (arguments : List String) : IO UInt32 :=
  NuspecLint.Program.run (NuspecLint.Command.ofArguments arguments)
