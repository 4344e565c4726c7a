import NuspecLint.Number.Binary64

/-!
# Shortest decimals

The decimal notation of a binary number: the fewest digits that still read back as the number,
and of those the nearest to it.

**Algorithm.**  The decimals that read back as `m · 2 ^ e` form an interval around it, whose ends
belong to it exactly if `m` is even.  For one digit, two digits, and so on, the two neighbours of
the number among the decimals of that many digits are tested against the interval.
-/

namespace NuspecLint

/-- A decimal `0.d₁d₂… · 10 ^ point`, its digits as one natural number. -/
structure Decimal where
  digits : Nat
  point : Int
  deriving Repr, DecidableEq

namespace Binary64

/-- The numbers that read back as a mantissa and exponent, in units of `1 / den`. -/
structure Interval where
  den : Nat
  low : Nat
  value : Nat
  high : Nat
  closed : Bool

/-- The interval of a positive number: half a unit of the last place to each neighbour. -/
def intervalOf (mantissa : Nat) (exponent : Int) : Interval :=
  let factor := twoTo (exponent - 2).toNat
  let below := if mantissa = twoTo 52 ∧ leastExponent < exponent then 1 else 2
  { den := twoTo (2 - exponent).toNat
    low := (4 * mantissa - below) * factor
    value := 4 * mantissa * factor
    high := (4 * mantissa + 2) * factor
    closed := mantissa % 2 == 0 }

/-- The number `k / unit` lies in the interval, where `unit` is `num / den` of a whole. -/
def Interval.contains (i : Interval) (k num den : Nat) : Bool :=
  let scaled := k * num * i.den
  if i.closed then i.low * den ≤ scaled && scaled ≤ i.high * den
  else i.low * den < scaled && scaled < i.high * den

/-- The decimal of `count` digits nearest to the number, if it reads back as the number. -/
def Interval.nearest? (i : Interval) (point : Int) (count : Nat) : Option Decimal :=
  let num := tenTo (point - count).toNat
  let den := tenTo (count - point).toNat
  let top := i.value * den
  let unit := i.den * num
  let floor := top / unit
  let rest := top % unit
  let down := i.contains floor num den
  let up := i.contains (floor + 1) num den
  if down && up then
    let chosen :=
      if 2 * rest < unit then floor
      else if unit < 2 * rest then floor + 1
      else if floor % 2 = 0 then floor
      else floor + 1
    some ⟨chosen, point⟩
  else if down then some ⟨floor, point⟩
  else if up then some ⟨floor + 1, point⟩
  else none

/-- The place of the decimal point before the first digit of `value / den`. -/
def pointOf (value den : Nat) : Int :=
  let guess : Int := ((Nat.log2 value : Int) - Nat.log2 den) * 30103 / 100000 - 1
  let above (k : Int) : Bool := value * tenTo (-k).toNat < den * tenTo k.toNat
  if above guess then guess
  else if above (guess + 1) then guess + 1
  else if above (guess + 2) then guess + 2
  else guess + 3

/-- The shortest decimal of a positive number; seventeen digits always suffice. -/
def shortest (mantissa : Nat) (exponent : Int) : Decimal × Nat :=
  let i := intervalOf mantissa exponent
  let point := pointOf i.value i.den
  let counts := (List.range 17).map (· + 1)
  match counts.findSome? fun count => (i.nearest? point count).map (·, count) with
  | some found => found
  | none => (⟨0, point⟩, 1)

/-- Drop the zeros at the end of some digits. -/
def dropZeros (digits : List Char) : List Char :=
  (digits.reverse.dropWhile (· == '0')).reverse

/-- An exponent with its sign and at least two digits. -/
def exponentText (e : Int) : String :=
  let digits := toString e.natAbs
  (if e < 0 then "e-" else "e+") ++ (if digits.length < 2 then "0" ++ digits else digits)

/--
Digits `d₁d₂…` with the decimal point after the first `point` of them.  From the sixteenth place
before the point to the fourth after it they are written out, with at least one digit on each
side of the point; beyond, one digit stands before the point and an exponent follows.
-/
def layOut (digits : List Char) (point : Int) : String :=
  if -4 < point ∧ point ≤ 16 then
    if point ≤ 0 then
      "0." ++ String.ofList (List.replicate (-point).toNat '0' ++ digits)
    else
      let whole := digits.take point.toNat
      let padding := List.replicate (point.toNat - whole.length) '0'
      let fraction := digits.drop point.toNat
      String.ofList (whole ++ padding ++ '.' :: (if fraction.isEmpty then ['0'] else fraction))
  else
    match digits with
    | [] => "0.0"
    | [d] => String.ofList [d] ++ exponentText (point - 1)
    | d :: rest => String.ofList (d :: '.' :: rest) ++ exponentText (point - 1)

/-- The shortest decimal notation of a number. -/
def toText : Binary64 → String
  | nan => "nan"
  | infinite negative => if negative then "-inf" else "inf"
  | finite negative mantissa exponent =>
      let sign := if negative then "-" else ""
      if mantissa = 0 then sign ++ "0.0"
      else
        let (found, count) := shortest mantissa exponent
        let digits := Nat.toDigits 10 found.digits
        let carry : Int := digits.length - count
        sign ++ layOut (dropZeros digits) (found.point + carry)

end Binary64

end NuspecLint
