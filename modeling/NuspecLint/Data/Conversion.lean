import NuspecLint.Data.Value
import NuspecLint.Number.Numeral

/-!
# Taking values for others

Messages are read leniently: where an integer or a text is needed, a value of another kind is
taken for one if it can be.

**Results.**
* `Value.toInteger?`: the integer that a value is taken for.
* `Value.toText?`: the text that a value is taken for.
* `Value.toItems?`: the items that a value is taken for.
-/

namespace NuspecLint
namespace Value

/--
The integer that a value is taken for: a number loses its fraction, truth counts one and falsehood
zero, and a string is read as a numeral.
-/
def toInteger? : Value → Option Int
  | integer n => some n
  | boolean b => some (if b then 1 else 0)
  | number x => x.whole?
  | string s => Numeral.read? s.toList
  | _ => none

/-- The text that a value is taken for: a string is its own text, and others are shown. -/
def toText? (allowance : Nat) : Value → Option String
  | string s => some s
  | v => (v.text allowance).toOption

/-- The items that a value is taken for: a table gives its keys, and a string its characters. -/
def toItems? : Value → Option (List Value)
  | list items => some items
  | table entries => some (entries.map fun entry => .string entry.1)
  | string s => some (s.toList.map fun c => .string c.toString)
  | _ => none

end Value
end NuspecLint
