/-!
# Log records

What the program says about its own work while it runs.  A computation that logs returns its
records, in order, beside its result.
-/

namespace NuspecLint

/-- How important a log record is. -/
inductive Level where
  | debug
  | info
  | warning
  | error
  | critical
  deriving Repr, DecidableEq

namespace Level

/-- The name of a level in log lines. -/
def name : Level → String
  | debug => "DEBUG"
  | info => "INFO"
  | warning => "WARNING"
  | error => "ERROR"
  | critical => "CRITICAL"

/-- Levels by importance. -/
def rank : Level → Nat
  | debug => 10
  | info => 20
  | warning => 30
  | error => 40
  | critical => 50

end Level

/-- The part of the program that a log record comes from. -/
inductive Source where
  | analyzer
  | config
  | server
  deriving Repr, DecidableEq

/-- The name of a part of the program in log lines. -/
def Source.name : Source → String
  | analyzer => "nuspec_ls.analyzer"
  | config => "nuspec_ls.config"
  | server => "nuspec_ls.server"

/-- A log record. -/
structure Record where
  level : Level
  source : Source
  message : String
  deriving Repr, DecidableEq

/-- A result with the records logged on the way to it. -/
structure Logged (α : Type) where
  value : α
  records : List Record

namespace Logged

variable {α β : Type}

/-- A result without records. -/
def pure (a : α) : Logged α :=
  ⟨a, []⟩

/-- Go on with a result and keep the records of both parts in order. -/
def bind (x : Logged α) (f : α → Logged β) : Logged β :=
  ⟨(f x.value).value, x.records ++ (f x.value).records⟩

instance : Monad Logged where
  pure := pure
  bind := bind

/-- Log one record. -/
def log (level : Level) (source : Source) (message : String) : Logged Unit :=
  ⟨(), [⟨level, source, message⟩]⟩

end Logged

end NuspecLint
