import NuspecLint.Client.Encoding
import NuspecLint.Data.Value
import NuspecLint.Diagnostic

/-!
# Diagnostics on the wire

Diagnostics as a client receives them, with positions in its own units.  Coordinates that do not
fit into the numbers of the wire are refused, both those in code points and those in the units of
the client.

**Results.**
* `toUnits`: a diagnostic with its positions in the units of a client, however great they are.
* `toWire`: the same, with coordinates that fit.
-/

namespace NuspecLint

/-- The greatest coordinate on the wire. -/
def greatestCoordinate : Int := 2147483647

/-- A coordinate that does not fit on the wire. -/
inductive CoordinateFault where
  | line (value : Int)
  | character (value : Int)
  deriving Repr, DecidableEq

/-- The message for a coordinate that does not fit; one with too many digits cannot be shown. -/
def CoordinateFault.message (f : CoordinateFault) : String :=
  let (field, value) :=
    match f with
    | line value => ("line", value)
    | character value => ("character", value)
  match Value.integerText value with
  | .ok shown =>
      "Position." ++ field ++ " should be in range [0:" ++ toString greatestCoordinate ++
        "], but was " ++ shown ++ "."
  | .error f => f.message

/-- A diagnostic as a client receives it. -/
structure WireDiagnostic where
  range : ClientRange
  severity : Severity
  message : String
  code : String
  deriving Repr, DecidableEq

namespace Position

/-- The coordinate fits on the wire. -/
def fits (n : Int) : Bool :=
  0 ≤ n && n ≤ greatestCoordinate

/-- A position with both coordinates checked, the line first. -/
def checked (p : Position) : Except CoordinateFault (Nat × Nat) :=
  if !fits p.line then .error (.line p.line)
  else if !fits p.character then .error (.character p.character)
  else .ok (p.line.toNat, p.character.toNat)

end Position

/-- A diagnostic about a text, with its positions in the units of a client. -/
def toUnits (e : Encoding) (text : List Char) (d : Diagnostic) :
    Except CoordinateFault WireDiagnostic := do
  let start ← d.range.start.checked
  let stop ← d.range.stop.checked
  let lines := Text.splitLines text
  return {
    range := ⟨e.toClient lines start.1 start.2, e.toClient lines stop.1 stop.2⟩
    severity := d.severity
    message := d.message
    code := d.ruleId }

/-- The position that a client is told, with both coordinates checked again. -/
def ClientPosition.checked (p : ClientPosition) : Except CoordinateFault ClientPosition :=
  (Position.checked ⟨p.line, p.character⟩).map fun _ => p

/-- A diagnostic about a text, for a client that counts in the given encoding. -/
def toWire (e : Encoding) (text : List Char) (d : Diagnostic) :
    Except CoordinateFault WireDiagnostic := do
  let wire ← toUnits e text d
  let start ← wire.range.start.checked
  let stop ← wire.range.stop.checked
  return { wire with range := ⟨start, stop⟩ }

/-- A position as data. -/
def ClientPosition.toValue (p : ClientPosition) : Value :=
  .table [("line", .integer p.line), ("character", .integer p.character)]

/-- A range as data. -/
def ClientRange.toValue (r : ClientRange) : Value :=
  .table [("start", r.start.toValue), ("end", r.stop.toValue)]

/-- A diagnostic as data. -/
def WireDiagnostic.toValue (d : WireDiagnostic) : Value :=
  .table [
    ("range", d.range.toValue),
    ("severity", .integer d.severity.code),
    ("message", .string d.message),
    ("code", .string d.code),
    ("source", .string "nuspec-ls")]

end NuspecLint
