import NuspecLint.Rule.Description
import NuspecLint.Rule.Placeholder

/-!
# Rules

The rules that a manifest is checked with: the two registered ones, and any that an embedding
program adds.
-/

namespace NuspecLint

/-- What running a rule leads to. -/
inductive Outcome where
  /-- The rule ran to its end and reported this. -/
  | completed (found : List Diagnostic)
  /-- The rule failed after it had reported this much. -/
  | failed (emitted : List Diagnostic)

/-- A rule. -/
inductive Rule where
  | placeholder
  | description (bounds : LengthBounds)
  /-- A check of an embedding program; it takes no options. -/
  | custom (id : String) (run : Markup.Node → LineTable → Outcome)
  /-- A check of an embedding program that takes options in its own way. -/
  | adjustable
      (id : String)
      (run : Markup.Node → LineTable → Outcome)
      (configure : Options → Except OptionFault Rule)

namespace Rule

/-- The identifier of a rule. -/
def id : Rule → String
  | placeholder => Placeholder.id
  | description _ => Description.id
  | custom id _ => id
  | adjustable id _ _ => id

/-- Run a rule on a document. -/
def check (r : Rule) (tree : Markup.Node) (lines : LineTable) : Outcome :=
  match r with
  | placeholder => .completed (Placeholder.check tree lines)
  | description bounds =>
      match Description.check bounds tree lines with
      | .ok found => .completed found
      | .error _ => .failed []
  | custom _ run => run tree lines
  | adjustable _ run _ => run tree lines

/-- The rule takes options. -/
def isConfigurable : Rule → Bool
  | description _ => true
  | adjustable _ _ _ => true
  | _ => false

/-- Apply options to a rule; one that takes none stays as it is. -/
def configure (r : Rule) (options : Options) : Except OptionFault Rule :=
  match r with
  | description bounds => (bounds.configure options).map description
  | adjustable _ _ configure => configure options
  | r => .ok r

/-- The registered rules, in the order in which they run. -/
def registered : List Rule :=
  [placeholder, description .standard]

/-- The identifiers of the registered rules. -/
def registeredIds : List String :=
  registered.map id

end Rule

end NuspecLint
