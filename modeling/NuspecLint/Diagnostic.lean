import NuspecLint.Position

/-!
# Diagnostics

What a rule reports about a manifest.
-/

namespace NuspecLint

/-- How grave a diagnostic is. -/
inductive Severity where
  | error
  | warning
  | information
  | hint
  deriving Repr, DecidableEq

/-- The number that stands for a severity on the wire. -/
def Severity.code : Severity → Nat
  | error => 1
  | warning => 2
  | information => 3
  | hint => 4

/-- One report of a rule about a stretch of a manifest. -/
structure Diagnostic where
  ruleId : String
  message : String
  range : Range
  severity : Severity
  deriving Repr, DecidableEq

end NuspecLint
