import NuspecLint.Analysis
import NuspecLint.Client.Edit
import NuspecLint.Client.Wire
import NuspecLint.Config.Lookup
import NuspecLint.Uri.File

/-!
# The language server

The server holds the documents that a client has open and answers each event on one of them with
the diagnostics of that document.

**Input.**  Events of the client: a document is opened, changed, saved or closed.

**Algorithm.**  A document is looked up by the decoded form of its URI.  Opening, changing and
saving it publish its diagnostics; closing it publishes an empty list.  The rules are chosen anew
each time, from the configuration that applies at that moment.  A document that is not open is
read from its file.  A URI that cannot be taken apart is found out when its document is first made
or, if a document of the same decoded form is open, when its configuration is searched for.

**Results.**
* `Server.handle`: the state after an event and the messages sent because of it.
-/

namespace NuspecLint

/-- An open document. -/
structure OpenDocument where
  text : List Char
  version : Option Int
  deriving Repr, DecidableEq

/-- Which rules a server runs. -/
inductive RuleChoice where
  /-- Those that are configured for the document. -/
  | configured
  /-- Always the same ones. -/
  | fixed (rules : List Rule)

/-- The state of a server after the client has introduced itself. -/
structure Server where
  encoding : Encoding
  choice : RuleChoice
  /-- The open documents, by decoded URI. -/
  documents : List (String × OpenDocument)

/-- Why a message of the client cannot be taken in. -/
inductive MessageFault where
  /-- It lacks something, or holds something of the wrong kind or out of bounds. -/
  | params
  /-- A message inside it has other parts than messages of its kind. -/
  | parts
  deriving Repr, DecidableEq

/-- What is said of a message that cannot be taken in. -/
def MessageFault.message : MessageFault → String
  | params => "Invalid Params"
  | parts => "Internal Error"

/-- Why an event cannot be handled. -/
inductive ServerFault where
  | notStarted
  | refused (fault : MessageFault)
  | unknownDocument (key : String)
  | unreadable (path : Path) (fault : ReadFault)
  | notText (fault : Utf8.Fault)
  | broken (cause : Breakdown)
  | uri (fault : Uri.Fault)
  | coordinate (fault : CoordinateFault)

/-- The message for an event that cannot be handled. -/
def ServerFault.message : ServerFault → String
  | notStarted =>
      "RuntimeError: The workspace is not available - has the server been initialized?"
  | unknownDocument key => "KeyError: " ++ Text.quotedString key
  | refused fault => fault.message
  | unreadable path fault => fault.kind ++ ": " ++ fault.message path.text
  | notText fault => "UnicodeDecodeError: " ++ fault.message
  | broken cause => cause.kind ++ ": " ++ cause.message
  | uri fault => "ValueError: " ++ fault.message
  | coordinate fault => "ValueError: " ++ fault.message

/-- An event on a document. -/
inductive Event where
  | opened (uri : String) (version : Int) (text : List Char)
  | changed (uri : String) (version : Int) (edits : List Edit)
  | saved (uri : String)
  | closed (uri : String)
  deriving Repr, DecidableEq

/-- The URI of the document that an event is about. -/
def Event.uri : Event → String
  | opened uri _ _ => uri
  | changed uri _ _ => uri
  | saved uri => uri
  | closed uri => uri

/-- A message to the client. -/
inductive Message where
  /-- The answer to the client's introduction, which carries an identifier. -/
  | welcome (id : Value) (encoding : Encoding)
  /-- The diagnostics of a document. -/
  | diagnostics (uri : String) (version : Option Int) (found : List WireDiagnostic)
  /-- A failure to handle an event. -/
  | failure (fault : ServerFault)

namespace Message

/-- The name of the server. -/
def serverName : String := "nuspec-ls"

/-- The version of the server. -/
def serverVersion : String := "v0.1.0"

/-- How the server wants to hear of documents: opened, closed, saved, and changed in parts. -/
def synchronization : Value :=
  .table [("openClose", .boolean true), ("change", .integer 2), ("save", .boolean true)]

/-- The message as data. -/
def toValue : Message → Value
  | welcome id encoding =>
      .table [
        ("id", id),
        ("result", .table [
          ("capabilities", .table [
            ("positionEncoding", .string encoding.name),
            ("textDocumentSync", synchronization)]),
          ("serverInfo", .table [
            ("name", .string serverName),
            ("version", .string serverVersion)])])]
  | diagnostics uri version found =>
      notification "textDocument/publishDiagnostics"
        ([("uri", .string uri), ("diagnostics", .list (found.map WireDiagnostic.toValue))] ++
          (version.map fun n => ("version", Value.integer n)).toList)
  | failure fault =>
      notification "window/showMessage"
        [("type", .integer 1), ("message", .string ("Error in server: " ++ fault.message))]
where
  /-- A message that expects no answer. -/
  notification (method : String) (params : List (String × Value)) : Value :=
    .table [("method", .string method), ("params", .table params)]

end Message

namespace Server

/-- A server right after a client has introduced itself. -/
def start (offered : List String) (choice : RuleChoice) : Server :=
  ⟨Encoding.negotiate offered, choice, []⟩

/-- The open document of a URI. -/
def document? (s : Server) (uri : String) : Option OpenDocument :=
  s.documents.lookup (Uri.key uri)

/-- Hold a document under a key. -/
def hold (key : String) (d : OpenDocument) (s : Server) : Server :=
  { s with documents := (key, d) :: s.documents.filter fun entry => entry.1 ≠ key }

/-- Hold no document under a key. -/
def drop (key : String) (s : Server) : Server :=
  { s with documents := s.documents.filter fun entry => entry.1 ≠ key }

/-- The text of a document that is not open. -/
def readFile (w : Workspace) (path : Path) : Except ServerFault (List Char) :=
  match w.read path with
  | .error f => .error (.unreadable path f)
  | .ok bytes =>
      match Utf8.decode bytes with
      | .error f => .error (.notText f)
      | .ok text => .ok (Text.normalizeNewlines text)

/-- The rules for a document. -/
def rules (w : Workspace) (s : Server) (path : Option Path) :
    Logged (Except Breakdown (List Rule)) :=
  match s.choice with
  | .configured => w.rulesOrAll path
  | .fixed rules => Logged.pure (.ok rules)

/-- How a version is shown in logs. -/
def versionText : Option Int → String
  | none => "None"
  | some n => toString n

/-- Log that the diagnostics of a document are about to be published. -/
def announce (uri : String) (version : Option Int) : Logged Unit :=
  Logged.log .debug .server
    ("Publishing diagnostics for " ++ uri ++ " (version " ++ versionText version ++ ")")

/-- The diagnostics of a text, for the client. -/
def diagnose (s : Server) (uri : String) (version : Option Int) (rules : List Rule)
    (text : List Char) : Logged Message :=
  (analyze rules text).bind fun found =>
    match found.mapM (toWire s.encoding text) with
    | .error f => Logged.pure (.failure (.coordinate f))
    | .ok wire => Logged.pure (.diagnostics uri version wire)

/-- Publish the diagnostics of a document; one that is not open is read from its file. -/
def publish (w : Workspace) (s : Server) (uri : String) : Logged Message :=
  match s.document? uri, Uri.split uri with
  | none, .error f => Logged.pure (.failure (.uri f))
  | some d, .error f =>
      (announce uri d.version).bind fun _ => Logged.pure (.failure (.uri f))
  | document, .ok parts =>
      let version := document.bind (·.version)
      (announce uri version).bind fun _ =>
      (s.rules w parts.manifestPath?).bind fun rules =>
      match rules with
      | .error b => Logged.pure (.failure (.broken b))
      | .ok rules =>
          match document with
          | some d => s.diagnose uri version rules d.text
          | none =>
              match readFile w parts.documentPath with
              | .error f => Logged.pure (.failure f)
              | .ok text => s.diagnose uri version rules text

/-- A document after edits; each of them brings the new version. -/
def edit (encoding : Encoding) (version : Int) (d : OpenDocument) (edits : List Edit) :
    OpenDocument :=
  edits.foldl (fun d e => ⟨e.apply encoding d.text, some version⟩) d

/-- The server after an event, if the event makes sense. -/
def apply (s : Server) : Event → Except ServerFault Server
  | .opened uri version text =>
      match Uri.split uri with
      | .error f => .error (.uri f)
      | .ok _ => .ok (s.hold (Uri.key uri) ⟨text, some version⟩)
  | .changed uri version edits =>
      match s.document? uri with
      | some d => .ok (s.hold (Uri.key uri) (edit s.encoding version d edits))
      | none => if edits.isEmpty then .ok s else .error (.unknownDocument (Uri.key uri))
  | .saved _ => .ok s
  | .closed uri => .ok (s.drop (Uri.key uri))

/-- The answer to an event, once the server has changed because of it. -/
def answer (w : Workspace) (s : Server) : Event → Logged Message
  | .closed uri => Logged.pure (.diagnostics uri none [])
  | e => s.publish w e.uri

/-- The state after an event and the messages sent because of it. -/
def handle (w : Workspace) (s : Server) (e : Event) : Logged (Server × List Message) :=
  match s.apply e with
  | .error f => Logged.pure (s, [.failure f])
  | .ok s => (s.answer w e).bind fun m => Logged.pure (s, [m])

end Server

/-- What a client sends. -/
inductive Request where
  /-- The client introduces itself, under an identifier for the answer, and offers encodings. -/
  | introduction (id : Value) (offered : List String)
  | event (e : Event)
  /-- A message that cannot be taken in. -/
  | refused (fault : MessageFault)

/-- A server that may still wait for its client to introduce itself. -/
structure Session where
  choice : RuleChoice
  server : Option Server

namespace Session

/-- A session in which nothing has been said yet. -/
def begin (choice : RuleChoice) : Session :=
  ⟨choice, none⟩

/-- The session after a request and the messages sent because of it. -/
def handle (w : Workspace) (s : Session) : Request → Logged (Session × List Message)
  | .introduction id offered =>
      let server := Server.start offered s.choice
      Logged.pure (⟨s.choice, some server⟩, [.welcome id server.encoding])
  | .refused fault => Logged.pure (s, [.failure (.refused fault)])
  | .event e =>
      match s.server with
      | none => Logged.pure (s, [.failure .notStarted])
      | some server =>
          (server.handle w e).bind fun done =>
            Logged.pure (⟨s.choice, some done.1⟩, done.2)

/-- All messages sent in the course of some requests. -/
def run (w : Workspace) (s : Session) : List Request → Logged (Session × List Message)
  | [] => Logged.pure (s, [])
  | r :: rest =>
      (s.handle w r).bind fun first =>
        (run w first.1 rest).bind fun later =>
          Logged.pure (later.1, first.2 ++ later.2)

end Session

end NuspecLint
