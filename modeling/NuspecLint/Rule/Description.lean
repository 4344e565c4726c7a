import NuspecLint.Data.Quantity
import NuspecLint.Diagnostic
import NuspecLint.Markup.Node
import NuspecLint.Text.Blank
import NuspecLint.Text.Case

/-!
# The package description

A package needs a description that is neither too short nor too long.

**Input.**  The document tree of a manifest, and two bounds on the length of a description.

**Algorithm.**  The first element called `description`, in any case, is looked at.  Its text is
stripped of white space at both ends and measured in characters.  A package without such an
element or with an empty one lacks a description; otherwise a length up to the lower bound is too
short, and one above the upper bound is too long.  An upper bound with too many digits cannot be
shown, so that the rule fails where it would have to be.

**Results.**
* `LengthBounds.configure`: the bounds that a table of options leads to.  Embedding programs may
  give any quantities as bounds, options only integers; the upper bound is never at most the lower
  one.
-/

namespace NuspecLint

/-- What is wrong with the options of a rule. -/
inductive OptionFault where
  | notInteger (key : String) (value : Value)
  | negative (key : String) (value : Int)
  | inverted (shortest longest : Quantity)
  /-- What a check of an embedding program says about its options. -/
  | foreign (message : String)

namespace Description

/-- The identifier of the rule. -/
def id : String := "NUS002"

end Description

/-- The message for faulty options, given how deeply values may be nested to be shown. -/
def OptionFault.message (allowance : Nat) : OptionFault → String
  | notInteger key value =>
      value.complaint allowance
        (Description.id ++ " option `" ++ key ++ "` must be an integer, got ")
  | negative key value =>
      match Value.integerText value with
      | .ok shown => Description.id ++ " option `" ++ key ++ "` must not be negative, got " ++ shown
      | .error f => f.message
  | inverted shortest longest =>
      match shortest.text, longest.text with
      | .ok low, .ok high =>
          Description.id ++ " min_length (" ++ low ++ ") must be lower than max_length (" ++
            high ++ ")"
      | .error f, _ => f.message
      | _, .error f => f.message
  | foreign message => message

/-- The options hold a value that would have to be shown and is nested too deeply. -/
def OptionFault.isTooDeep (allowance : Nat) : OptionFault → Bool
  | notInteger _ value => value.isTooDeep allowance
  | _ => false

/--
Bounds on the length of a description: up to `shortest` it is too short, above `longest` too
long.
-/
structure LengthBounds where
  shortest : Quantity
  longest : Quantity
  longest_not_atMost_shortest : longest.atMost shortest = false
  deriving Repr, DecidableEq

namespace LengthBounds

/-- The bounds without any configuration. -/
def standard : LengthBounds :=
  ⟨.integer 30, .integer 4000, by simp⟩

/-- Two bounds, refused if the second is at most the first. -/
def make (shortest longest : Quantity) : Except OptionFault LengthBounds :=
  if h : longest.atMost shortest = false then .ok ⟨shortest, longest, h⟩
  else .error (.inverted shortest longest)

/-- A length given by an option; if the option is left out, the current bound counts. -/
def lengthOption (options : Options) (key : String) (current : Quantity) :
    Except OptionFault Int :=
  match (options.lookup key).getD current.toValue with
  | .integer n => if n < 0 then .error (.negative key n) else .ok n
  | value => .error (.notInteger key value)

/-- The bounds after options are applied. -/
def configure (b : LengthBounds) (options : Options) : Except OptionFault LengthBounds := do
  let shortest ← lengthOption options "min_length" b.shortest
  let longest ← lengthOption options "max_length" b.longest
  make (.integer shortest) (.integer longest)

end LengthBounds

namespace Description

/-- Where the package guidelines are found. -/
def guidelines : String := "https://github.com/chocolatey/package-validator/wiki"

/-- What may be wrong with a description. -/
inductive Finding where
  | missing
  | tooShort
  | tooLong
  deriving Repr, DecidableEq

/-- The message for a finding, given the bounds; that for the upper bound shows it. -/
def Finding.message (b : LengthBounds) : Finding → Except Unshown String
  | missing => .ok ("Description is required. See " ++ guidelines ++ "/DescriptionNotEmpty")
  | tooShort =>
      .ok ("Description should be sufficient to explain the software. See " ++ guidelines ++
        "/DescriptionCharacterCountMinimum")
  | tooLong =>
      b.longest.text.map fun shown =>
        "Description should not exceed " ++ shown ++ " characters. See " ++
          guidelines ++ "/DescriptionCharacterCountMaximum"

/-- A description that is there but short is only a warning. -/
def Finding.severity : Finding → Severity
  | tooShort => .warning
  | _ => .error

/-- The node is an element called `description`, in any case. -/
def isDescription (n : Markup.Node) : Bool :=
  n.isElement && Text.lower n.name == "description".toList

/-- The first description of a document, if it has one. -/
def find? (tree : Markup.Node) : Option Markup.Node :=
  (tree.descendants isDescription false).head?

/-- What is wrong with a description of the given length. -/
def judge (b : LengthBounds) (length : Nat) : Option Finding :=
  if length = 0 then some .missing
  else if (Quantity.integer length).atMost b.shortest then some .tooShort
  else if b.longest.below (.integer length) then some .tooLong
  else none

/-- The report of a finding on a span. -/
def report (b : LengthBounds) (lines : LineTable) (span : Nat × Nat) (f : Finding) :
    Except Unshown Diagnostic :=
  (f.message b).map fun message =>
    { ruleId := id
      message := message
      range := lines.rangeOf span.1 span.2
      severity := f.severity }

/-- What is wrong with the description of a document, if anything, and the span to report it on. -/
def finding? (b : LengthBounds) (tree : Markup.Node) : Option (Finding × Nat × Nat) :=
  match find? tree with
  | none => some (.missing, 0, tree.stop)
  | some element =>
      let length := (Text.trim element.contentValue).length
      (judge b length).map fun f => (f, element.contentSpan)

/-- The report about the description of a document, if there is one to make. -/
def check (b : LengthBounds) (tree : Markup.Node) (lines : LineTable) :
    Except Unshown (List Diagnostic) :=
  match finding? b tree with
  | none => .ok []
  | some (f, span) => (report b lines span f).map ([·])

end Description
end NuspecLint
