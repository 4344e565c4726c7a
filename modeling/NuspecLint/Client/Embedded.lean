import NuspecLint.Client.Protocol
import NuspecLint.Text.Name

/-!
# Messages inside messages

A client may put an object with the mark of a message anywhere inside a message.

**Algorithm.**  Such an object is taken for a message of its own, the innermost first.  A method
that the protocol knows has a schema; other messages have exactly the parts of their kind, and what
they carry becomes a record.  Of a message that was taken in, only how it is shown is left, so that
it is no table any more.  How deeply what is shown may be nested is given by an allowance.

**Results.**
* `Embedded.settle`: a value without messages inside.
-/

namespace NuspecLint
namespace Embedded

open Protocol

/-- A kind of message: its name, its parts in order, and the part that says what it carries. -/
structure Kind where
  name : String
  parts : List String
  contents : String

/-- A message that waits for no answer. -/
def notificationKind : Kind :=
  ⟨"JsonRPCNotification", ["method", mark, "params"], "params"⟩

/-- A message that waits for an answer. -/
def requestKind : Kind :=
  ⟨"JsonRPCRequestMessage", ["id", "method", mark, "params"], "params"⟩

/-- An answer. -/
def responseKind : Kind :=
  ⟨"JsonRPCResponseMessage", ["id", mark, "result"], "result"⟩

/-- The kind of a message with some entries. -/
def kindOf (entries : List (String × Value)) : Kind :=
  if (entries.lookup "id").isNone then notificationKind
  else if (entries.lookup "method").isSome then requestKind
  else responseKind

mutual

/-- The value holds no rendering. -/
def isPlain : Value → Bool
  | .list items => arePlain items
  | .table entries => holdPlain entries
  | .rendering _ => false
  | _ => true

/-- The items of a list hold no rendering. -/
def arePlain : List Value → Bool
  | [] => true
  | v :: rest => isPlain v && arePlain rest

/-- The entries of a table hold no rendering. -/
def holdPlain : List (String × Value) → Bool
  | [] => true
  | (_, v) :: rest => isPlain v && holdPlain rest

end

/-- The name of a part; an entry whose name cannot be one is called by its place. -/
def partName (place : Nat) (key : String) : String :=
  if Text.isName key && !key.startsWith "_" then key else "_" ++ toString place

variable (allowance : Nat)

mutual

/-- A value as messages show it, with its tables as records of one name. -/
def namedText? (name : String) : Value → Option String
  | .list items =>
      (namedItems? name items).map fun shown => "[" ++ ", ".intercalate shown ++ "]"
  | .table entries => (namedParts? name 0 entries).map (recordText name)
  | v => (v.text allowance).toOption

/-- The items of a list as messages show them. -/
def namedItems? (name : String) : List Value → Option (List String)
  | [] => some []
  | v :: rest =>
      match namedText? name v, namedItems? name rest with
      | some shown, some rest => some (shown :: rest)
      | _, _ => none

/-- The entries of a table as parts of a record, counted from a place on. -/
def namedParts? (name : String) (place : Nat) :
    List (String × Value) → Option (List (String × String))
  | [] => some []
  | (key, v) :: rest =>
      match namedText? name v, namedParts? name (place + 1) rest with
      | some shown, some rest => some ((partName place key, shown) :: rest)
      | _, _ => none

end

/-- The entry that says under which name a table becomes a record. -/
def nameKey : String := "type_name"

/-- The name under which a table becomes a record, if it is one. -/
def recordName? (entries : List (String × Value)) : Option String :=
  match entries.lookup nameKey with
  | none => some "Object"
  | some (.string s) => if Text.isName s then some s else none
  | some _ => none

/-- What a message carries, as messages show it. -/
def contentsText? : Value → Option String
  | .table entries =>
      let rest := entries.filter fun entry => entry.1 ≠ nameKey
      (recordName? entries).bind fun name =>
        if holdPlain rest then namedText? allowance name (.table rest) else none
  | v => (v.text allowance).toOption

/-- The part of a message under a name, as messages show it. -/
def partText? (kind : Kind) (entries : List (String × Value)) (key : String) :
    Option (String × String) :=
  (entries.lookup key).bind fun v =>
    (if key = kind.contents then contentsText? allowance v
      else (v.text allowance).toOption).map fun shown => (key, shown)

/-- A message of a kind as messages show it; it has exactly the parts of that kind. -/
def kindText? (kind : Kind) (entries : List (String × Value)) : Option String :=
  if entries.all fun entry => kind.parts.contains entry.1 then
    (kind.parts.mapM (partText? allowance kind entries)).map (recordText kind.name)
  else none

/-- What is left of a message whose parts are not given by a schema. -/
def ofKind (entries : List (String × Value)) : Except MessageFault Value :=
  match kindText? allowance (kindOf entries) entries with
  | some shown => .ok (.rendering shown)
  | none => .error .parts

/-- What is left of a message that has to fit a schema. -/
def ofSchema (s : Schema) (entries : List (String × Value)) : Except MessageFault Value :=
  match s.text? allowance (.table entries) with
  | some shown => .ok (.rendering shown)
  | none => .error .params

/-- What is left of a message. -/
def ofMessage (entries : List (String × Value)) : Except MessageFault Value :=
  if (entries.lookup "id").isSome && (entries.lookup "error").isSome then
    ofSchema allowance failure entries
  else
    match entries.lookup "method" with
    | some (.string method) =>
        match messages.lookup method with
        | some s => ofSchema allowance s entries
        | none => ofKind allowance entries
    | some v => if v.isScalar then ofKind allowance entries else .error .parts
    | none => ofKind allowance entries

/-- A table, which is a message if it has the mark of one. -/
def ofEntries (entries : List (String × Value)) : Except MessageFault Value :=
  if (entries.lookup mark).isSome then ofMessage allowance entries else .ok (.table entries)

mutual

/-- A value without messages inside. -/
def settle : Value → Except MessageFault Value
  | .list items => (settleItems items).map Value.list
  | .table entries => (settleEntries entries).bind (ofEntries allowance)
  | v => .ok v

/-- The items of a list, settled one after the other. -/
def settleItems : List Value → Except MessageFault (List Value)
  | [] => .ok []
  | v :: rest =>
      match settle v with
      | .error f => .error f
      | .ok v => (settleItems rest).map (v :: ·)

/-- The entries of a table, settled one after the other. -/
def settleEntries : List (String × Value) → Except MessageFault (List (String × Value))
  | [] => .ok []
  | (key, v) :: rest =>
      match settle v with
      | .error f => .error f
      | .ok v => (settleEntries rest).map ((key, v) :: ·)

end

end Embedded
end NuspecLint
