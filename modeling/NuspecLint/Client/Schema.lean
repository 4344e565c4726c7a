import NuspecLint.Client.Report
import NuspecLint.Data.Quantity

/-!
# Schemas

What the contents of messages are made of, and how contents that fit are shown.

**Algorithm.**  A schema says what a value has to be.  Integers and texts may be given by values
that can be taken for them, and truth by any value.  Objects have parts, some of which may be
missing; entries that are no parts do not matter.

**Results.**
* `Schema.text?`: a value that fits a schema, as messages show it within an allowance for nesting.
-/

namespace NuspecLint

/-- What a value has to be. -/
inductive Schema where
  /-- An integer of 32 bits with a sign. -/
  | integer
  /-- A coordinate or a length. -/
  | natural
  | text
  | truth
  /-- A value that is not put together from others. -/
  | scalar
  | anything
  | position
  | range
  /-- One of some values, each with a name of its own. -/
  | member (name : String) (cases : List (Value × String))
  /-- Something that may be missing. -/
  | optional (s : Schema)
  | sequence (s : Schema)
  /-- One of two, by whether there is an entry under a key. -/
  | byKey (key : String) (present missing : Schema)
  /-- A record; each part has a key under which it is given and a name under which it is shown. -/
  | object (name : String) (parts : List (String × String × Schema))

/-- A record as messages show it, given how its parts are shown. -/
def recordText (name : String) (parts : List (String × String)) : String :=
  name ++ "(" ++ ", ".intercalate (parts.map fun part => part.1 ++ "=" ++ part.2) ++ ")"

/-- A sequence as messages show it, given how its items are shown. -/
def sequenceText : List String → String
  | [item] => "(" ++ item ++ ",)"
  | items => "(" ++ ", ".intercalate items ++ ")"

namespace Value

/-- The value counts as true: it is neither missing, nor zero, nor empty. -/
def isTrue : Value → Bool
  | absent => false
  | boolean b => b
  | integer n => n ≠ 0
  | number x => x ≠ Binary64.zero false && x ≠ Binary64.zero true
  | string s => !s.isEmpty
  | list items => !items.isEmpty
  | table entries => !entries.isEmpty
  | _ => true

/-- Two scalars count as the same: equal strings or equal numbers. -/
def isSame (v w : Value) : Bool :=
  match v, w with
  | string s, string t => s == t
  | v, w =>
      match Quantity.ofValue? v, Quantity.ofValue? w with
      | some a, some b => a.atMost b && b.atMost a
      | _, _ => false

/-- What a value has under a key, if it can be asked for one. -/
def entry? (v : Value) (key : String) : Option (Option Value) :=
  match v with
  | table entries => some (entries.lookup key)
  | list _ | string _ => some none
  | _ => none

end Value

namespace Schema

/-- What the schema asks for may be missing. -/
def isOptional : Schema → Bool
  | optional _ => true
  | _ => false

/-- A position as messages show it. -/
def positionText (p : ClientPosition) : String :=
  toString p.line ++ ":" ++ toString p.character

variable (allowance : Nat)

mutual

/-- A value that fits a schema, as messages show it. -/
def text? : Schema → Value → Option String
  | integer, v => (Report.integerOf? v).map toString
  | natural, v => (Report.coordinateOf? v).map toString
  | text, v => (v.toText? allowance).map Text.quotedString
  | truth, v => some (if v.isTrue then "True" else "False")
  | scalar, v => if v.isScalar then (v.text allowance).toOption else none
  | anything, v => (v.text allowance).toOption
  | position, v => (Report.positionOf? v).map positionText
  | range, v =>
      (Report.rangeOf? v).map fun r => positionText r.start ++ "-" ++ positionText r.stop
  | member name cases, v => do
      let found ← cases.find? fun entry => entry.1.isSame v
      let shown ← (found.1.text allowance).toOption
      return "<" ++ name ++ "." ++ found.2 ++ ": " ++ shown ++ ">"
  | optional s, v =>
      match v with
      | .absent => some "None"
      | v => text? s v
  | sequence s, v =>
      v.toItems?.bind fun items => (items.mapM (text? s)).map sequenceText
  | byKey key present missing, v =>
      match v.entry? key with
      | none => none
      | some none => text? missing v
      | some (some _) => text? present v
  | object name parts, v => (partsText? parts v).map (recordText name)

/-- The parts of a record that a value has, as messages show them. -/
def partsText? : List (String × String × Schema) → Value → Option (List (String × String))
  | [], _ => some []
  | (key, name, s) :: rest, v =>
      match v.entry? key with
      | none => none
      | some none => if s.isOptional then withPart name (some "None") (partsText? rest v) else none
      | some (some part) => withPart name (text? s part) (partsText? rest v)
where
  /-- A part in front of others, if all of them can be shown. -/
  withPart (name : String) (shown : Option String) (rest : Option (List (String × String))) :
      Option (List (String × String)) :=
    match shown, rest with
    | some shown, some rest => some ((name, shown) :: rest)
    | _, _ => none

end

end Schema
end NuspecLint
