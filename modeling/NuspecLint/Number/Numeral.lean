import NuspecLint.Number.DigitLimit
import NuspecLint.Text.Blank
import NuspecLint.Text.DecimalDigit

/-!
# Numerals

Integers as they are written in texts.

**Algorithm.**  White space around a numeral is dropped.  A sign may stand in front.  The digits may
be of any script, and a single underscore may stand between two of them.  A numeral with too many
digits is refused.

**Results.**
* `Numeral.read?`: the integer that a text stands for.
-/

namespace NuspecLint
namespace Numeral

/-- White space around a numeral; separators among the control characters do not count. -/
def isPadding (c : Char) : Bool :=
  Text.isBlank c && !(0x1C ≤ c.toNat && c.toNat ≤ 0x1F)

/-- The text without the white space around it. -/
def strip (s : List Char) : List Char :=
  ((s.dropWhile isPadding).reverse.dropWhile isPadding).reverse

/-- What the digits of a numeral are worth; `afterDigit` says that a digit was read just before. -/
def digits? (afterDigit : Bool) : List Char → Option (List Nat)
  | [] => if afterDigit then some [] else none
  | c :: s =>
      if c = '_' then if afterDigit then digits? false s else none
      else
        match Text.decimalDigit? c with
        | none => none
        | some d => (digits? true s).map (d :: ·)

/-- The number that digits stand for. -/
def value (digits : List Nat) : Nat :=
  digits.foldl (fun n d => 10 * n + d) 0

/-- The number that a text without a sign stands for. -/
def readNat? (s : List Char) : Option Nat :=
  match digits? false s with
  | none => none
  | some digits => if digits.length ≤ digitLimit then some (value digits) else none

/-- The integer that a text stands for. -/
def read? (s : List Char) : Option Int :=
  match strip s with
  | '-' :: t => (readNat? t).map fun n => -(n : Int)
  | '+' :: t => (readNat? t).map fun n => (n : Int)
  | t => (readNat? t).map fun n => (n : Int)

end Numeral
end NuspecLint
