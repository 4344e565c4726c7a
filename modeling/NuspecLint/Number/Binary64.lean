/-!
# Binary floating-point numbers

Numbers of 53 significant bits, as data values hold them.

**Algorithm.**  A decimal is an exact quotient of natural numbers.  The exponent is chosen so
that the quotient has 53 bits before the binary point, or fewer below the least exponent, and
the quotient is rounded to nearest, ties to even.

**Results.**
* `Binary64.ofDecimal`: the number nearest to a decimal.
* `Binary64.ofNotation`: the number that a decimal notation stands for.
* `Binary64.whole?`: a number without its fraction.
-/

namespace NuspecLint

/-- A binary floating-point number: `± mantissa · 2 ^ exponent`, an infinity, or no number. -/
inductive Binary64 where
  | finite (negative : Bool) (mantissa : Nat) (exponent : Int)
  | infinite (negative : Bool)
  | nan
  deriving Repr, DecidableEq

namespace Binary64

/-- A power of two. -/
def twoTo (n : Nat) : Nat := Nat.pow 2 n

/-- A power of ten. -/
def tenTo (n : Nat) : Nat := Nat.pow 10 n

/-- The least exponent. -/
def leastExponent : Int := -1074

/-- The greatest exponent of a finite number. -/
def greatestExponent : Int := 971

/-- A quotient rounded to the nearest natural number, ties to the even one. -/
def roundQuotient (num den : Nat) : Nat :=
  let q := num / den
  let r := num % den
  if 2 * r < den then q
  else if den < 2 * r then q + 1
  else if q % 2 = 0 then q
  else q + 1

/-- The two terms of the quotient `num / den · 2 ^ (- exponent)`. -/
def scaled (num den : Nat) (exponent : Int) : Nat × Nat :=
  (num * twoTo (-exponent).toNat, den * twoTo exponent.toNat)

/-- The exponent at which the quotient has 53 bits before the binary point. -/
def exponentOf (num den : Nat) : Int :=
  let guess : Int := (Nat.log2 num : Int) - Nat.log2 den - 52
  let terms := scaled num den guess
  if terms.1 < terms.2 * twoTo 52 then guess - 1 else guess

/-- The number nearest to a positive quotient. -/
def ofQuotient (negative : Bool) (num den : Nat) : Binary64 :=
  let exponent := max (exponentOf num den) leastExponent
  let terms := scaled num den exponent
  let mantissa := roundQuotient terms.1 terms.2
  let rounded : Nat × Int :=
    if mantissa = twoTo 53 then (twoTo 52, exponent + 1) else (mantissa, exponent)
  if greatestExponent < rounded.2 then infinite negative
  else finite negative rounded.1 rounded.2

/-- Zero, with a sign. -/
def zero (negative : Bool) : Binary64 :=
  finite negative 0 leastExponent

/-- How many decimal digits a natural number has. -/
def decimalLength (n : Nat) : Nat :=
  (Nat.toDigits 10 n).length

/-- The number nearest to `± digits · 10 ^ scale`. -/
def ofDecimal (negative : Bool) (digits : Nat) (scale : Int) : Binary64 :=
  let magnitude := decimalLength digits + scale
  if digits = 0 ∨ magnitude < -400 then zero negative
  else if 400 < magnitude then infinite negative
  else ofQuotient negative (digits * tenTo scale.toNat) (tenTo (-scale).toNat)

/-- The natural number that some decimal digits stand for. -/
def digitsValue (digits : List Char) : Nat :=
  digits.foldl (fun n c => 10 * n + (c.toNat - '0'.toNat)) 0

/-- A sign at the front of a text: whether it is a minus, and what follows it. -/
def splitSign : List Char → Bool × List Char
  | '-' :: s => (true, s)
  | '+' :: s => (false, s)
  | s => (false, s)

/--
The number that a decimal notation stands for: a sign, digits, a point with digits, an exponent
after `e` or `E`.  All parts but the digits may be missing.
-/
def ofNotation (s : List Char) : Binary64 :=
  let (negative, s) := splitSign s
  let whole := s.takeWhile Char.isDigit
  let rest := s.dropWhile Char.isDigit
  let fraction :=
    match rest with
    | '.' :: t => t.takeWhile Char.isDigit
    | _ => []
  let power : Int :=
    match rest.dropWhile fun c => c == '.' || c.isDigit with
    | _ :: t =>
        let (minus, digits) := splitSign t
        if minus then -(digitsValue digits : Int) else digitsValue digits
    | [] => 0
  ofDecimal negative (digitsValue (whole ++ fraction)) (power - fraction.length)

/-- A number without its fraction, if it is finite. -/
def whole? : Binary64 → Option Int
  | finite negative mantissa exponent =>
      let size := mantissa * twoTo exponent.toNat / twoTo (-exponent).toNat
      some (if negative then -(size : Int) else size)
  | _ => none

end Binary64

end NuspecLint
