import NuspecLint.Data.Moment
import NuspecLint.Host
import NuspecLint.Number.DigitLimit
import NuspecLint.Number.Shortest
import NuspecLint.Text.Quoted

/-!
# Data values

What configuration files and messages are made of.  Tables keep their entries in the order in
which they were first written.

**Results.**
* `Value.text`: the value as error messages show it, or why it cannot be shown.  How deeply it may
  be nested depends on the host.
-/

namespace NuspecLint

/-- A data value. -/
inductive Value where
  /-- No value at all; configuration files cannot write it, embedding programs can. -/
  | absent
  | boolean (b : Bool)
  | integer (n : Int)
  | number (x : Binary64)
  | string (s : String)
  | moment (m : Moment)
  | list (items : List Value)
  | table (entries : List (String × Value))
  /-- Something that is no plain value any more; all that is left of it is how it is shown. -/
  | rendering (text : String)

/-- Why a value cannot be shown. -/
inductive Unshown where
  /-- It holds an integer with too many digits. -/
  | longInteger
  /-- It is nested too deeply. -/
  | tooDeep
  deriving Repr, DecidableEq

/-- The message for a value that cannot be shown. -/
def Unshown.message : Unshown → String
  | longInteger => LongInteger.shown.message
  | tooDeep => tooDeepToShow

namespace Value

/-- An integer as messages show it. -/
def integerText (n : Int) : Except Unshown String :=
  match integerText? n with
  | some shown => .ok shown
  | none => .error .longInteger

mutual

/-- A value as messages show it; so many values may be shown one inside the other within it. -/
def text (allowance : Nat) (v : Value) : Except Unshown String :=
  match v with
  | absent => .ok "None"
  | boolean b => .ok (if b then "True" else "False")
  | integer n => integerText n
  | number x => .ok x.toText
  | string s => .ok (Text.quotedString s)
  | moment m => .ok m.text
  | list items =>
      (itemTexts allowance items).map fun shown => "[" ++ ", ".intercalate shown ++ "]"
  | table entries =>
      (entryTexts allowance entries).map fun shown =>
        "\x7b" ++ ", ".intercalate shown ++ "\x7d"
  | rendering text => .ok text

/-- The items of a list as messages show them; the first that cannot be shown counts. -/
def itemTexts (allowance : Nat) : List Value → Except Unshown (List String)
  | [] => .ok []
  | v :: rest =>
      if allowance = 0 then .error .tooDeep
      else
        match text (allowance - 1) v with
        | .error f => .error f
        | .ok shown => (itemTexts allowance rest).map (shown :: ·)

/-- The entries of a table as messages show them; the first that cannot be shown counts. -/
def entryTexts (allowance : Nat) : List (String × Value) → Except Unshown (List String)
  | [] => .ok []
  | (key, v) :: rest =>
      if allowance = 0 then .error .tooDeep
      else
        match text (allowance - 1) v with
        | .error f => .error f
        | .ok shown =>
            (entryTexts allowance rest).map ((Text.quotedString key ++ ": " ++ shown) :: ·)

end

/-- A value is nested too deeply to be shown. -/
def isTooDeep (allowance : Nat) (v : Value) : Bool :=
  match v.text allowance with
  | .error .tooDeep => true
  | _ => false

/-- A complaint that ends with a value; if the value cannot be shown, that is said instead. -/
def complaint (allowance : Nat) (about : String) (v : Value) : String :=
  match v.text allowance with
  | .ok shown => about ++ shown
  | .error f => f.message

/-- The strings of a list of strings. -/
def strings? : Value → Option (List String)
  | list items =>
      items.mapM fun
        | string s => some s
        | _ => none
  | _ => none

/-- The value is not put together from others. -/
def isScalar : Value → Bool
  | list _ | table _ | rendering _ => false
  | _ => true

/-- The entries of a table. -/
def entries? : Value → Option (List (String × Value))
  | table entries => some entries
  | _ => none

end Value

/-- A table of options for one rule. -/
abbrev Options := List (String × Value)

end NuspecLint
