import NuspecLint.Data.Conversion
import NuspecLint.Server

/-!
# Reports of a client

What a client says in its messages: what happened to a document, and which encodings it offers.

**Algorithm.**  Reports are read leniently: an integer or a text may be given by a value that can be
taken for one; an allowance says how deeply a value may be nested that is taken for a text.  A
report that lacks something, or holds a number that is out of bounds, says nothing.

**Results.**
* `Report.readers`: how each kind of event is read.
* `Report.offeredEncodings?`: the encodings that a client offers.
-/

namespace NuspecLint

namespace Value

/-- The entry of a table under a name. -/
def get? (v : Value) (key : String) : Option Value :=
  v.entries?.bind fun entries => entries.lookup key

/-- The value that names lead to, one after the other. -/
def path? (v : Value) : List String → Option Value
  | [] => some v
  | key :: rest => (v.get? key).bind fun inner => inner.path? rest

/-- The string that names lead to. -/
def stringAt? (v : Value) (keys : List String) : Option String :=
  match v.path? keys with
  | some (.string s) => some s
  | _ => none

end Value

namespace Report

variable (allowance : Nat)

/-- A coordinate or a length in a received object. -/
def coordinateOf? (v : Value) : Option Nat := do
  let n ← v.toInteger?
  if Position.fits n then some n.toNat else none

/-- A position in a received object. -/
def positionOf? (v : Value) : Option ClientPosition := do
  let line ← (v.get? "line").bind coordinateOf?
  let character ← (v.get? "character").bind coordinateOf?
  return ⟨line, character⟩

/-- A range in a received object. -/
def rangeOf? (v : Value) : Option ClientRange := do
  let start ← (v.get? "start").bind positionOf?
  let stop ← (v.get? "end").bind positionOf?
  return ⟨start, stop⟩

/-- The length that an edit may give for its range is none or a length; nothing hangs on it. -/
def hasValidLength (v : Value) : Bool :=
  match v.get? "rangeLength" with
  | none => true
  | some .absent => true
  | some length => (coordinateOf? length).isSome

/-- An edit in a received object. -/
def editOf? (v : Value) : Option Edit := do
  let text ← (v.get? "text").bind (Value.toText? allowance)
  match v.get? "range" with
  | none => return ⟨none, text.toList⟩
  | some range =>
      let range ← rangeOf? range
      if hasValidLength v then return ⟨some range, text.toList⟩ else none

/-- The URI of the document that a notification is about. -/
def uriOf? (params : Value) : Option String :=
  (params.path? ["textDocument", "uri"]).bind (Value.toText? allowance)

/-- An integer of 32 bits with a sign in a received object. -/
def integerOf? (v : Value) : Option Int := do
  let n ← v.toInteger?
  if -greatestCoordinate - 1 ≤ n ∧ n ≤ greatestCoordinate then some n else none

/-- The version of a document in a notification. -/
def versionOf? (params : Value) : Option Int :=
  (params.path? ["textDocument", "version"]).bind integerOf?

/-- The report that a document was opened; it has to name a language, on which nothing hangs. -/
def openedOf? (params : Value) : Option Event := do
  let text ← (params.path? ["textDocument", "text"]).bind (Value.toText? allowance)
  let language ← params.path? ["textDocument", "languageId"]
  if language.isScalar then
    return .opened (← uriOf? allowance params) (← versionOf? params) text.toList
  else none

/-- The report that a document was changed. -/
def changedOf? (params : Value) : Option Event := do
  let items ← (params.get? "contentChanges").bind Value.toItems?
  let edits ← items.mapM (editOf? allowance)
  return .changed (← uriOf? allowance params) (← versionOf? params) edits

/-- How events are reported: by the name of the notification. -/
def readers : List (String × (Value → Option Event)) :=
  [("textDocument/didOpen", openedOf? allowance),
   ("textDocument/didChange", changedOf? allowance),
   ("textDocument/didSave", fun params => (uriOf? allowance params).map .saved),
   ("textDocument/didClose", fun params => (uriOf? allowance params).map .closed)]

/-- The name of an encoding; other scalars may stand among the names and stand for none. -/
def encodingName? : Value → Option String
  | .string s => some s
  | v => if v.isScalar then some "" else none

/-- The encodings that a client offers when it introduces itself; it need not offer any. -/
def offeredEncodings? (params : Value) : Option (List String) :=
  match params.path? ["capabilities", "general", "positionEncodings"] with
  | none | some .absent => some []
  | some offered => offered.toItems?.bind fun items => items.mapM encodingName?

end Report
end NuspecLint
