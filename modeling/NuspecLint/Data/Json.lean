import NuspecLint.Data.Value
import NuspecLint.Text.Hexadecimal

/-!
# JSON

The notation of messages.  A number with a point or an exponent is a floating-point number, any
other an integer; infinities and what is no number are written as words.  The entries of an object
keep their order.

**Algorithm.**  Reading goes from left to right and hands on what it has not read yet.  Values
nest, so the reader carries a budget of nested values; a text cannot nest deeper than it is long.

**Results.**
* `Json.read?`: the value that a text stands for.
* `Json.write`: a text that stands for a value, in ASCII only.
-/

namespace NuspecLint
namespace Json

open Text

/-- White space between the parts of a value. -/
def isSpace (c : Char) : Bool :=
  c == ' ' || c == '\t' || c == '\n' || c == '\r'

/-- The rest of a text after its leading white space. -/
def skipSpace (s : List Char) : List Char :=
  s.dropWhile isSpace

/-- The code of a character escape that is not given by its number. -/
def escapeCode? (c : Char) : Option Nat :=
  if c = '"' ∨ c = '\\' ∨ c = '/' then some c.toNat
  else if c = 'b' then some 8
  else if c = 'f' then some 12
  else if c = 'n' then some 10
  else if c = 'r' then some 13
  else if c = 't' then some 9
  else none

/-- The codes of a string up to its closing quotation mark, and what follows it. -/
def readCodes? (codes : List Nat) : List Char → Option (List Nat × List Char)
  | [] => none
  | '"' :: s => some (codes.reverse, s)
  | '\\' :: 'u' :: a :: b :: c :: d :: s =>
      match hexValue? [a, b, c, d] with
      | some n => readCodes? (n :: codes) s
      | none => none
  | '\\' :: c :: s =>
      match escapeCode? c with
      | some n => readCodes? (n :: codes) s
      | none => none
  | c :: s => readCodes? (c.toNat :: codes) s

/-- Codes as characters; two codes that are surrogates of each other make one character. -/
def joinCodes : List Nat → List Char
  | [] => []
  | a :: b :: s =>
      if 0xD800 ≤ a ∧ a < 0xDC00 ∧ 0xDC00 ≤ b ∧ b < 0xE000 then
        Char.ofNat (0x10000 + (a - 0xD800) * 0x400 + (b - 0xDC00)) :: joinCodes s
      else scalar a :: joinCodes (b :: s)
  | [a] => [scalar a]
where
  /-- A code that is no character becomes the replacement character. -/
  scalar (n : Nat) : Char :=
    if n.isValidChar then Char.ofNat n else Char.ofNat 0xFFFD

/-- A string, after its opening quotation mark. -/
def readString? (s : List Char) : Option (String × List Char) :=
  (readCodes? [] s).map fun found => (String.ofList (joinCodes found.1), found.2)

/-- The characters of a number. -/
def isNumberChar (c : Char) : Bool :=
  c.isDigit || c == '-' || c == '+' || c == '.' || c == 'e' || c == 'E'

/-- The value that the characters of a number stand for. -/
def numberValue (s : List Char) : Value :=
  if s.any fun c => c == '.' || c == 'e' || c == 'E' then .number (Binary64.ofNotation s)
  else
    let (negative, digits) := Binary64.splitSign s
    let n : Int := Binary64.digitsValue digits
    .integer (if negative then -n else n)

/-- Read a fixed word. -/
def readWord? (word : String) (v : Value) (s : List Char) : Option (Value × List Char) :=
  if word.toList.isPrefixOf s then some (v, s.drop word.length) else none

mutual

/-- Read a value. -/
def readValue? : Nat → List Char → Option (Value × List Char)
  | 0, _ => none
  | budget + 1, s =>
      match skipSpace s with
      | [] => none
      | '"' :: t => (readString? t).map fun found => (.string found.1, found.2)
      | '[' :: t =>
          match skipSpace t with
          | ']' :: rest => some (.list [], rest)
          | t => readItems? budget [] t
      | '{' :: t =>
          match skipSpace t with
          | '}' :: rest => some (.table [], rest)
          | t => readEntries? budget [] t
      | 't' :: t => readWord? "rue" (.boolean true) t
      | 'f' :: t => readWord? "alse" (.boolean false) t
      | 'n' :: t => readWord? "ull" .absent t
      | 'N' :: t => readWord? "aN" (.number .nan) t
      | 'I' :: t => readWord? "nfinity" (.number (.infinite false)) t
      | '-' :: 'I' :: t => readWord? "nfinity" (.number (.infinite true)) t
      | c :: t =>
          if isNumberChar c then
            some (numberValue (c :: t.takeWhile isNumberChar), t.dropWhile isNumberChar)
          else none

/-- Read the items of a list up to its closing bracket; those read before are newest first. -/
def readItems? : Nat → List Value → List Char → Option (Value × List Char)
  | 0, _, _ => none
  | budget + 1, items, s =>
      match readValue? budget s with
      | none => none
      | some (v, rest) =>
          match skipSpace rest with
          | ',' :: t => readItems? budget (v :: items) t
          | ']' :: t => some (.list (v :: items).reverse, t)
          | _ => none

/-- Read the entries of a table up to its closing brace; those read before are newest first. -/
def readEntries? : Nat → List (String × Value) → List Char → Option (Value × List Char)
  | 0, _, _ => none
  | budget + 1, entries, s =>
      match skipSpace s with
      | '"' :: t =>
          match readString? t with
          | none => none
          | some (key, rest) =>
              match skipSpace rest with
              | ':' :: t =>
                  match readValue? budget t with
                  | none => none
                  | some (v, rest) =>
                      match skipSpace rest with
                      | ',' :: t => readEntries? budget ((key, v) :: entries) t
                      | '}' :: t => some (.table ((key, v) :: entries).reverse, t)
                      | _ => none
              | _ => none
      | _ => none

end

/-- The value that a text stands for. -/
def read? (s : List Char) : Option Value :=
  match readValue? (2 * s.length + 2) s with
  | some (v, rest) => if (skipSpace rest).isEmpty then some v else none
  | none => none

/-- A character of a string; those outside printable ASCII are escaped by UTF-16 code. -/
def writeChar (c : Char) : List Char :=
  let n := c.toNat
  if c = '"' ∨ c = '\\' then ['\\', c]
  else if 0x20 ≤ n ∧ n < 0x7F then [c]
  else if n < 0x10000 then '\\' :: 'u' :: hexadecimal 4 n
  else
    '\\' :: 'u' :: (hexadecimal 4 (0xD800 + (n - 0x10000) / 0x400) ++
      '\\' :: 'u' :: hexadecimal 4 (0xDC00 + (n - 0x10000) % 0x400))

/-- A string between quotation marks. -/
def writeString (s : String) : String :=
  "\"" ++ String.ofList (s.toList.flatMap writeChar) ++ "\""

/-- A floating-point number. -/
def writeNumber : Binary64 → String
  | .infinite negative => if negative then "-Infinity" else "Infinity"
  | .nan => "NaN"
  | x => x.toText

mutual

/--
A text that stands for a value; moments are written in international notation, and what is no
plain value as it is shown.
-/
def write : Value → String
  | .absent => "null"
  | .boolean b => if b then "true" else "false"
  | .integer n => toString n
  | .number x => writeNumber x
  | .string s => writeString s
  | .moment m => writeString m.iso
  | .list items => "[" ++ ",".intercalate (writeItems items) ++ "]"
  | .table entries => "\x7b" ++ ",".intercalate (writeEntries entries) ++ "\x7d"
  | .rendering text => writeString text

/-- The items of a list. -/
def writeItems : List Value → List String
  | [] => []
  | v :: rest => write v :: writeItems rest

/-- The entries of a table. -/
def writeEntries : List (String × Value) → List String
  | [] => []
  | (key, v) :: rest => (writeString key ++ ":" ++ write v) :: writeEntries rest

end

end Json
end NuspecLint
