/-!
# Long integers

Integers have no bounds, but those with very many decimal digits are neither read nor shown.

**Results.**
* `integerText?`: the decimal digits of an integer, unless there are too many.
-/

namespace NuspecLint

/-- The most decimal digits that an integer may be read from or shown with. -/
def digitLimit : Nat := 4300

/-- What is wrong with a long integer. -/
inductive LongInteger where
  /-- It is written with this many digits. -/
  | written (digits : Nat)
  /-- It would have to be shown with too many digits. -/
  | shown
  deriving Repr, DecidableEq

/-- The message for a long integer. -/
def LongInteger.message (l : LongInteger) : String :=
  let extent :=
    match l with
    | written digits => ": value has " ++ toString digits ++ " digits"
    | shown => ""
  "Exceeds the limit (" ++ toString digitLimit ++ " digits) for integer string conversion" ++
    extent ++ "; use sys.set_int_max_str_digits() to increase the limit"

/-- The decimal digits of an integer, with its sign. -/
def integerText? (n : Int) : Option String :=
  if (toString n.natAbs).length ≤ digitLimit then some (toString n) else none

end NuspecLint
