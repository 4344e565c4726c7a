import NuspecLint.Server

/-!
# The serve command

**Input.**  The name of a log level and the requests of a client.

**Results.**
* `Workspace.serve`: the messages sent and the log lines of at least the wanted level.
-/

namespace NuspecLint

/-- The least rank of the records that a level name asks for; names are in upper case. -/
def Level.threshold? (name : String) : Option Nat :=
  [("CRITICAL", 50), ("FATAL", 50), ("ERROR", 40), ("WARN", 30), ("WARNING", 30), ("INFO", 20),
    ("DEBUG", 10), ("NOTSET", 0)].lookup name

/-- A level name that stands for no level. -/
structure UnknownLevel where
  name : String
  deriving Repr, DecidableEq

/-- The message for an unknown level. -/
def UnknownLevel.message (u : UnknownLevel) : String :=
  "Unknown level: " ++ Text.quotedString u.name

/-- The level that is wanted if none is named. -/
def standardLevel : String := "WARNING"

/-- A record as a log line. -/
def Record.line (r : Record) : String :=
  r.level.name ++ " " ++ r.source.name ++ ": " ++ r.message

/-- The record of the start of a server. -/
def startRecord : Record :=
  ⟨.info, .server,
    "Starting nuspec-ls; registered rules: " ++ ", ".intercalate Rule.registeredIds⟩

/-- What a server does from its start to the end of its input. -/
structure Service where
  messages : List Message
  logLines : List String

/-- The rank of the records to show, for a level named in any case. -/
def wantedRank (level : String) : Except UnknownLevel Nat :=
  let name := String.ofList (Text.upper level.toList)
  match Level.threshold? name with
  | some rank => .ok rank
  | none => .error ⟨name⟩

/-- Serve a client until its input ends. -/
def Workspace.serve (w : Workspace) (level : String) (requests : List Request) :
    Except UnknownLevel Service :=
  (wantedRank level).map fun rank =>
    let done := (Session.begin .configured).run w requests
    let shown := (startRecord :: done.records).filter fun r => rank ≤ r.level.rank
    ⟨done.value.2, shown.map Record.line⟩

end NuspecLint
