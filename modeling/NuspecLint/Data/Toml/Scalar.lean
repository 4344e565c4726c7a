import NuspecLint.Data.Value
import NuspecLint.Text.Hexadecimal
import NuspecLint.Text.Search

/-!
# TOML: strings, numbers and moments

Readers for the values that do not hold other values.  Each reads from the front of a text and
returns what it has not read; none means that the text does not start with such a value.  An
integer in base ten is refused as soon as it is read if it has too many digits.
-/

namespace NuspecLint
namespace Toml

open Text

/-- Why a text cannot be read. -/
inductive Fault where
  /-- It is not valid TOML. -/
  | malformed
  /-- It holds an integer with too many digits, and what stands before that is valid. -/
  | longInteger (fault : LongInteger)
  /-- Its values are nested too deeply, and what stands before the deepest is valid. -/
  | tooDeep
  deriving Repr, DecidableEq

/-- What was read, or the fault that there is nothing of the kind. -/
def required {α : Type} : Option α → Except Fault α
  | some found => .ok found
  | none => .error .malformed

/-- Blanks within a line. -/
def isBlank (c : Char) : Bool :=
  c == ' ' || c == '\t'

/-- Control characters other than the tab; they may stand neither in strings nor in comments. -/
def isControl (c : Char) : Bool :=
  (c.toNat < 0x20 && c != '\t') || c.toNat == 0x7F

/-- Control characters that may not stand in strings of several lines. -/
def isInnerControl (c : Char) : Bool :=
  isControl c && c != '\n'

/-- How far a string of several lines is from the text after an escaped line end. -/
inductive Trimming where
  /-- Not near one. -/
  | off
  /-- A backslash and blanks were read; a line end must follow. -/
  | toLineEnd
  /-- The line end was read; blanks and further line ends are dropped. -/
  | pastLineEnd
  deriving Repr, DecidableEq

/-- The character that an escape of one letter stands for. -/
def escape? (c : Char) : Option Char :=
  if c = 'b' then some (Char.ofNat 8)
  else if c = 't' then some '\t'
  else if c = 'n' then some '\n'
  else if c = 'f' then some (Char.ofNat 12)
  else if c = 'r' then some '\r'
  else if c = '"' ∨ c = '\\' then some c
  else none

/-- The character that an escape of hexadecimal digits stands for. -/
def codeEscape? (digits : List Char) : Option Char :=
  match hexValue? digits with
  | some n => if n.isValidChar then some (Char.ofNat n) else none
  | none => none

/--
A string with escapes, up to its closing quotation mark or, if it spans lines, marks.  What has
been read of it is newest first.
-/
def readBasic? (multiline : Bool) (mode : Trimming) (text : List Char) :
    List Char → Option (List Char × List Char)
  | [] => none
  | c :: s =>
      if mode = .pastLineEnd && (isBlank c || c == '\n') then
        readBasic? multiline .pastLineEnd text s
      else if mode = .toLineEnd then
        if isBlank c then readBasic? multiline .toLineEnd text s
        else if c = '\n' then readBasic? multiline .pastLineEnd text s
        else none
      else if c = '"' then
        if multiline then
          match s with
          | '"' :: '"' :: rest => some (text.reverse, rest)
          | s => readBasic? multiline .off ('"' :: text) s
        else some (text.reverse, s)
      else if c = '\\' then
        match s with
        | 'u' :: a :: b :: d :: e :: rest =>
            match codeEscape? [a, b, d, e] with
            | some x => readBasic? multiline .off (x :: text) rest
            | none => none
        | 'U' :: a :: b :: d :: e :: f :: g :: h :: i :: rest =>
            match codeEscape? [a, b, d, e, f, g, h, i] with
            | some x => readBasic? multiline .off (x :: text) rest
            | none => none
        | '\n' :: rest =>
            if multiline then readBasic? multiline .pastLineEnd text rest else none
        | x :: rest =>
            if multiline && isBlank x then readBasic? multiline .toLineEnd text rest
            else
              match escape? x with
              | some y => readBasic? multiline .off (y :: text) rest
              | none => none
        | [] => none
      else if (if multiline then isInnerControl c else isControl c) then none
      else readBasic? multiline .off (c :: text) s

/-- A string without escapes, up to its closing mark. -/
def readLiteral? (mark : List Char) (isIllegal : Char → Bool) (s : List Char) :
    Option (List Char × List Char) :=
  match splitAt? mark s with
  | some (inside, rest) => if inside.any isIllegal then none else some (inside, rest)
  | none => none

/-- Up to two more marks right after the end of a string of several lines belong to it. -/
def takeExtraMarks (mark : Char) (found : List Char × List Char) : List Char × List Char :=
  match found.2 with
  | a :: b :: rest =>
      if a = mark ∧ b = mark then (found.1 ++ [mark, mark], rest)
      else if a = mark then (found.1 ++ [mark], b :: rest)
      else found
  | [a] => if a = mark then (found.1 ++ [mark], []) else found
  | [] => found

/-- A line end right after the opening marks of a string of several lines does not belong to it. -/
def dropLineEnd : List Char → List Char
  | '\n' :: s => s
  | s => s

/-- A string of any kind. -/
def readString? : List Char → Option (List Char × List Char)
  | '"' :: '"' :: '"' :: s =>
      (readBasic? true .off [] (dropLineEnd s)).map (takeExtraMarks '"')
  | '"' :: s => readBasic? false .off [] s
  | '\'' :: '\'' :: '\'' :: s =>
      (readLiteral? ['\'', '\'', '\''] isInnerControl (dropLineEnd s)).map (takeExtraMarks '\'')
  | '\'' :: s => readLiteral? ['\''] isControl s
  | _ => none

/-- A fixed number of decimal digits. -/
def readDigits? (count : Nat) (s : List Char) : Option (Nat × List Char) :=
  let digits := s.take count
  if digits.length = count && digits.all Char.isDigit then
    some (Binary64.digitsValue digits, s.drop count)
  else none

/-- A fixed character. -/
def readChar? (c : Char) : List Char → Option (List Char)
  | x :: s => if x = c then some s else none
  | [] => none

/-- A number of two digits within bounds. -/
def readPair? (low high : Nat) (s : List Char) : Option (Nat × List Char) :=
  match readDigits? 2 s with
  | some (n, rest) => if low ≤ n ∧ n ≤ high then some (n, rest) else none
  | none => none

/-- A fraction of a second; its first six digits count. -/
def readFraction : List Char → Nat × List Char
  | '.' :: s =>
      let digits := s.takeWhile Char.isDigit
      if digits.isEmpty then (0, '.' :: s)
      else
        let micro := (digits ++ List.replicate 6 '0').take 6
        (Binary64.digitsValue micro, s.dropWhile Char.isDigit)
  | s => (0, s)

/-- A time of day. -/
def readTime? (s : List Char) : Option (Time × List Char) := do
  let (hour, s) ← readPair? 0 23 s
  let s ← readChar? ':' s
  let (minute, s) ← readPair? 0 59 s
  let s ← readChar? ':' s
  let (second, s) ← readPair? 0 59 s
  let (micro, s) := readFraction s
  return (⟨hour, minute, second, micro⟩, s)

/-- The characters of a date, whether or not there is such a day. -/
def readDate? (s : List Char) : Option (Date × List Char) := do
  let (year, s) ← readDigits? 4 s
  let s ← readChar? '-' s
  let (month, s) ← readPair? 1 12 s
  let s ← readChar? '-' s
  let (day, s) ← readPair? 1 31 s
  return (⟨year, month, day⟩, s)

/-- Hours and minutes of an offset from universal time. -/
def readOffsetSize? (s : List Char) : Option (Int × List Char) := do
  let (hour, s) ← readPair? 0 23 s
  let s ← readChar? ':' s
  let (minute, s) ← readPair? 0 59 s
  return (hour * 60 + minute, s)

/-- The offset from universal time that may follow a time. -/
def readOffset : List Char → Option Offset × List Char
  | [] => (none, [])
  | c :: s =>
      if c = 'Z' ∨ c = 'z' then (some ⟨0⟩, s)
      else if c = '+' ∨ c = '-' then
        match readOffsetSize? s with
        | some (minutes, rest) => (some ⟨if c = '-' then -minutes else minutes⟩, rest)
        | none => (none, c :: s)
      else (none, c :: s)

/-- The time that may follow a date. -/
def readDayTime? : List Char → Option (Time × List Char)
  | c :: s => if c = 'T' ∨ c = 't' ∨ c = ' ' then readTime? s else none
  | [] => none

/-- A moment: the characters of one, and the moment itself unless there is no such day. -/
def readMoment? (s : List Char) : Option (Option Moment × List Char) :=
  match readDate? s with
  | some (date, rest) =>
      match readDayTime? rest with
      | some (time, rest) =>
          let (offset, rest) := readOffset rest
          some (if date.isValid then some (.dateTime date time offset) else none, rest)
      | none => some (if date.isValid then some (.date date) else none, rest)
  | none => (readTime? s).map fun found => (some (.time found.1), found.2)

/-- Digits with single underscores between them, up to what does not belong to them. -/
def digitRun (isDigit : Char → Bool) : List Char → List Char × List Char
  | [] => ([], [])
  | '_' :: c :: s =>
      if isDigit c then
        let found := digitRun isDigit s
        (c :: found.1, found.2)
      else ([], '_' :: c :: s)
  | c :: s =>
      if isDigit c then
        let found := digitRun isDigit s
        (c :: found.1, found.2)
      else ([], c :: s)

/-- A run of digits that starts with one. -/
def readRun? (isDigit : Char → Bool) (s : List Char) : Option (List Char × List Char) :=
  match s with
  | c :: _ => if isDigit c then some (digitRun isDigit s) else none
  | [] => none

/-- The base that the letter after a leading zero stands for. -/
def baseOf? (c : Char) : Option Nat :=
  if c = 'x' then some 16 else if c = 'o' then some 8 else if c = 'b' then some 2 else none

/-- The digits of a base. -/
def isDigitOf (base : Nat) (c : Char) : Bool :=
  match hexDigit? c with
  | some n => n < base
  | none => false

/-- An integer in another base than ten. -/
def readBased? : List Char → Option (Value × List Char)
  | '0' :: c :: s => do
      let base ← baseOf? c
      let (digits, rest) ← readRun? (isDigitOf base) s
      let value := digits.foldl (fun n d => base * n + (hexDigit? d).getD 0) 0
      return (.integer value, rest)
  | _ => none

/-- The digits before the point: a zero, or digits that do not start with one. -/
def readWhole? (s : List Char) : Option (List Char × List Char) :=
  match s with
  | '0' :: rest => some (['0'], rest)
  | s => readRun? Char.isDigit s

/-- The point and the digits after it, if there are any. -/
def readPlaces (s : List Char) : Option (List Char) × List Char :=
  match s with
  | '.' :: t =>
      match readRun? Char.isDigit t with
      | some (digits, rest) => (some digits, rest)
      | none => (none, s)
  | s => (none, s)

/-- The exponent, if there is one. -/
def readPower (s : List Char) : Option Int × List Char :=
  match s with
  | c :: t =>
      if c = 'e' ∨ c = 'E' then
        let (negative, t) := Binary64.splitSign t
        match readRun? Char.isDigit t with
        | some (digits, rest) =>
            let n : Int := Binary64.digitsValue digits
            (some (if negative then -n else n), rest)
        | none => (none, s)
      else (none, s)
  | [] => (none, s)

/-- The integer that a sign and digits in base ten stand for. -/
def integerOf (negative : Bool) (digits : List Char) : Except Fault Value :=
  if digitLimit < digits.length then .error (.longInteger (.written digits.length))
  else
    let n : Int := Binary64.digitsValue digits
    .ok (.integer (if negative then -n else n))

/-- A number in base ten. -/
def readDecimal (s : List Char) : Except Fault (Value × List Char) := do
  let (negative, t) := Binary64.splitSign s
  let (whole, rest) ← required (readWhole? t)
  let (places, rest) := readPlaces rest
  let (power, rest) := readPower rest
  if places.isNone && power.isNone then
    return (← integerOf negative whole, rest)
  else
    let fraction := places.getD []
    let digits := Binary64.digitsValue (whole ++ fraction)
    let scale := power.getD 0 - fraction.length
    return (.number (Binary64.ofDecimal negative digits scale), rest)

/-- A number that is written as a word. -/
def readNamed? (s : List Char) : Option (Value × List Char) :=
  let (negative, t) := Binary64.splitSign s
  match t with
  | 'i' :: 'n' :: 'f' :: rest => some (.number (.infinite negative), rest)
  | 'n' :: 'a' :: 'n' :: rest => some (.number .nan, rest)
  | _ => none

/-- A number of any kind. -/
def readNumber (s : List Char) : Except Fault (Value × List Char) :=
  match readBased? s with
  | some found => .ok found
  | none =>
      match readNamed? s with
      | some found => .ok found
      | none => readDecimal s

/-- A truth value. -/
def readBoolean? : List Char → Option (Value × List Char)
  | 't' :: 'r' :: 'u' :: 'e' :: s => some (.boolean true, s)
  | 'f' :: 'a' :: 'l' :: 's' :: 'e' :: s => some (.boolean false, s)
  | _ => none

/-- A string as a value. -/
def readText (s : List Char) : Except Fault (Value × List Char) :=
  (required (readString? s)).map fun found => (.string (String.ofList found.1), found.2)

/-- A value that holds no others. -/
def readScalar (s : List Char) : Except Fault (Value × List Char) :=
  match s with
  | '"' :: _ => readText s
  | '\'' :: _ => readText s
  | _ =>
      match readBoolean? s with
      | some found => .ok found
      | none =>
          match readMoment? s with
          | some (some m, rest) => .ok (.moment m, rest)
          | some (none, _) => .error .malformed
          | none => readNumber s

end Toml
end NuspecLint
