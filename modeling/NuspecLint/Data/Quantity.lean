import NuspecLint.Data.Value

/-!
# Quantities

The values that count as numbers, and their exact order.

**Algorithm.**  Integers and floating-point numbers lie among the fractions whose denominator is a
power of two, or beyond all of them.  Such fractions are compared by cross multiplication, so that
nothing is rounded.  What is no number is neither at most nor below anything.

**Results.**
* `Quantity.atMost`, `Quantity.below`: the order of quantities.
* `Quantity.ofValue?`: the quantity that a value is.
* `Quantity.text`: a quantity as messages show it, or why it cannot be shown.
-/

namespace NuspecLint

/-- A value that counts as a number; truth counts one and falsehood zero. -/
inductive Quantity where
  | integer (n : Int)
  | number (x : Binary64)
  | truth (b : Bool)
  deriving Repr, DecidableEq

/-- A place on the line of numbers. -/
inductive Extent where
  /-- Before all fractions. -/
  | first
  /-- At `numerator / 2 ^ scale`. -/
  | fraction (numerator : Int) (scale : Nat)
  /-- After all fractions. -/
  | last
  deriving Repr, DecidableEq

/-- The one place does not come after the other. -/
def Extent.atMost : Extent → Extent → Bool
  | first, _ => true
  | _, last => true
  | fraction n j, fraction m k => decide (n * Binary64.twoTo k ≤ m * Binary64.twoTo j)
  | _, _ => false

/-- The place of a floating-point number; what is no number has none. -/
def Binary64.extent? : Binary64 → Option Extent
  | finite negative mantissa exponent =>
      let size : Int := mantissa * twoTo exponent.toNat
      some (.fraction (if negative then -size else size) (-exponent).toNat)
  | infinite negative => some (if negative then .first else .last)
  | nan => none

namespace Quantity

/-- The value that a quantity is. -/
def toValue : Quantity → Value
  | integer n => .integer n
  | number x => .number x
  | truth b => .boolean b

/-- The quantity that a value is. -/
def ofValue? : Value → Option Quantity
  | .integer n => some (integer n)
  | .number x => some (number x)
  | .boolean b => some (truth b)
  | _ => none

/-- The place of a quantity on the line of numbers. -/
def extent? : Quantity → Option Extent
  | integer n => some (.fraction n 0)
  | number x => x.extent?
  | truth b => some (.fraction (if b then 1 else 0) 0)

/-- The one quantity is less than the other or equal to it. -/
def atMost (a b : Quantity) : Bool :=
  match a.extent?, b.extent? with
  | some x, some y => x.atMost y
  | _, _ => false

/-- The one quantity is less than the other. -/
def below (a b : Quantity) : Bool :=
  match a.extent?, b.extent? with
  | some x, some y => !y.atMost x
  | _, _ => false

/-- A quantity as messages show it; an integer with too many digits cannot be shown. -/
def text : Quantity → Except Unshown String
  | integer n => Value.integerText n
  | number x => .ok x.toText
  | truth b => .ok (if b then "True" else "False")

@[simp]
theorem ofValue?_toValue (q : Quantity) : ofValue? q.toValue = some q := by
  cases q <;> rfl

/-- The order of integers is that of quantities. -/
@[simp]
theorem atMost_integer (n m : Int) : (integer n).atMost (integer m) = decide (n ≤ m) := by
  simp [atMost, extent?, Extent.atMost, Binary64.twoTo]

/-- The strict order of integers is that of quantities. -/
@[simp]
theorem below_integer (n m : Int) : (integer n).below (integer m) = decide (n < m) := by
  by_cases h : n < m
  · simp [below, extent?, Extent.atMost, Binary64.twoTo, h]
  · simp [below, extent?, Extent.atMost, Binary64.twoTo, h, Int.not_lt.mp h]

end Quantity
end NuspecLint
