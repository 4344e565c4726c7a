import NuspecLint.Client.Embedded
import NuspecLint.Data.Json

/-!
# Remote calls

The messages of a client and a server as they travel: each is a JSON object after a header that
gives its length in bytes.

**Results.**
* `Call.ofValue`: what a received object asks for; an allowance says how deeply values may be nested
  that have to be shown.
* `Message.encode`: a message ready to be sent.
-/

namespace NuspecLint

/-- What a received object asks for. -/
inductive Call where
  | request (r : Request)
  /-- The client is about to leave and waits for an answer. -/
  | shutdown (id : Value)
  /-- The client has left. -/
  | exit
  /-- A call that the server does not know and that waits for an answer. -/
  | unknown (id : Value) (method : String)
  /-- Anything that needs no answer. -/
  | ignored

namespace Call

/-- The request that a reading leads to. -/
def requestOf {α : Type} (f : α → Request) : Option α → Call
  | some a => .request (f a)
  | none => .request (.refused .params)

variable (allowance : Nat)

/-- What a call asks for, once the messages inside it are settled. -/
def ofEntries (entries : List (String × Value)) : Call :=
  let v := Value.table entries
  let method := (v.stringAt? ["method"]).getD ""
  let params := (v.get? "params").getD (.table [])
  match v.get? "id" with
  | some id =>
      if method = "initialize" then
        requestOf (.introduction id) (Report.offeredEncodings? params)
      else if method = "shutdown" then .shutdown id
      else if method = "" then .ignored
      else .unknown id method
  | none =>
      if method = "exit" then .exit
      else
        match (Report.readers allowance).lookup method with
        | some read => requestOf .event (read params)
        | none => .ignored

/-- What a received object asks for; first the messages inside it are settled. -/
def ofValue : Value → Call
  | .table entries =>
      match Embedded.settleEntries allowance entries with
      | .ok entries => ofEntries allowance entries
      | .error fault => .request (.refused fault)
  | _ => .ignored

/-- The empty answer to a call. -/
def emptyAnswer (id : Value) : Value :=
  .table [("id", id), ("result", .absent)]

/-- The answer to a call that the server does not know. -/
def refusal (id : Value) (method : String) : Value :=
  .table [
    ("id", id),
    ("error", .table [
      ("code", .integer (-32601)),
      ("message", .string ("Method not found: " ++ method))])]

end Call

/-- An object ready to be sent: its header, an empty line, and its text. -/
def frame (v : Value) : String :=
  let body := Json.write (.table (("jsonrpc", .string "2.0") :: (v.entries?.getD [])))
  "Content-Length: " ++ toString body.length ++ "\r\n\r\n" ++ body

/-- A message ready to be sent. -/
def Message.encode (m : Message) : String :=
  frame m.toValue

end NuspecLint
