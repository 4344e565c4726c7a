import NuspecLint.Text.Hexadecimal

/-!
# UTF-8

**Input.**  The bytes of a file.

**Algorithm.**  The first byte of a character says which bytes may follow it.  Bytes are taken
as long as they are allowed; if all that are needed come, they make a character.  Otherwise the
bytes taken so far are at fault: the first byte starts no character, a byte is not allowed where
it stands, or the file ends too early.

**Results.**
* `Utf8.decode`: the text of a file, or its first fault.
* `Utf8.decodeReplacing`: the text with each fault replaced by one character.
* `Utf8.decodeMarked`: the text without the byte order mark that may precede it.
-/

namespace NuspecLint
namespace Utf8

/-- Why bytes are no character. -/
inductive Reason where
  | invalidStart
  | invalidContinuation
  | unexpectedEnd
  deriving Repr, DecidableEq

/-- The wording of a reason. -/
def Reason.text : Reason → String
  | invalidStart => "invalid start byte"
  | invalidContinuation => "invalid continuation byte"
  | unexpectedEnd => "unexpected end of data"

/-- Bytes that are no character: where they start, how many there are, and the first of them. -/
structure Fault where
  position : Nat
  count : Nat
  byte : UInt8
  reason : Reason
  deriving Repr, DecidableEq

/-- The message for a fault. -/
def Fault.message (f : Fault) : String :=
  let place :=
    if f.count = 1 then
      "byte 0x" ++ String.ofList (Text.hexadecimal 2 f.byte.toNat) ++ " in position " ++
        toString f.position
    else
      "bytes in position " ++ toString f.position ++ "-" ++ toString (f.position + f.count - 1)
  "'utf-8' codec can't decode " ++ place ++ ": " ++ f.reason.text

/-- A closed range of bytes. -/
structure ByteRange where
  low : Nat
  high : Nat
  deriving Repr, DecidableEq

/-- The byte lies in the range. -/
def ByteRange.contains (r : ByteRange) (b : UInt8) : Bool :=
  r.low ≤ b.toNat && b.toNat ≤ r.high

/-- The bytes that continue a character, unless something narrower is asked. -/
def continuation : ByteRange := ⟨0x80, 0xBF⟩

/--
What a first byte asks for: its own share of the code point and the ranges of the bytes that
follow.  Overlong forms, surrogates and code points that are too large are excluded by the range
of the second byte.
-/
def lead? (b : UInt8) : Option (Nat × List ByteRange) :=
  let n := b.toNat
  if n < 0x80 then some (n, [])
  else if n < 0xC2 then none
  else if n < 0xE0 then some (n - 0xC0, [continuation])
  else if n = 0xE0 then some (0, [⟨0xA0, 0xBF⟩, continuation])
  else if n = 0xED then some (0xD, [⟨0x80, 0x9F⟩, continuation])
  else if n < 0xF0 then some (n - 0xE0, [continuation, continuation])
  else if n = 0xF0 then some (0, [⟨0x90, 0xBF⟩, continuation, continuation])
  else if n = 0xF4 then some (4, [⟨0x80, 0x8F⟩, continuation, continuation])
  else if n < 0xF4 then some (n - 0xF0, [continuation, continuation, continuation])
  else none

/-- A character, or why there is none, with the number of bytes taken after the first. -/
inductive Step where
  | char (c : Char) (taken : Nat)
  | fault (reason : Reason) (taken : Nat)
  deriving Repr, DecidableEq

/-- Take the bytes that the ranges allow. -/
def follow (code taken : Nat) : List ByteRange → List UInt8 → Step
  | [], _ => .char (Char.ofNat code) taken
  | _ :: _, [] => .fault .unexpectedEnd taken
  | r :: ranges, b :: bytes =>
      if r.contains b then follow (code * 0x40 + b.toNat % 0x40) (taken + 1) ranges bytes
      else .fault .invalidContinuation taken

/-- Read the character that starts with the byte `b`. -/
def step (b : UInt8) (bytes : List UInt8) : Step :=
  match lead? b with
  | none => .fault .invalidStart 0
  | some (code, ranges) => follow code 0 ranges bytes

/-- The text of the bytes, which start at `position`, or their first fault. -/
def decodeAt (position : Nat) (bytes : List UInt8) : Except Fault (List Char) :=
  match bytes with
  | [] => .ok []
  | b :: rest =>
      match step b rest with
      | .char c taken =>
          (decodeAt (position + taken + 1) (rest.drop taken)).map fun text => c :: text
      | .fault reason taken => .error ⟨position, taken + 1, b, reason⟩
termination_by bytes.length
decreasing_by simp only [List.length_drop, List.length_cons]; omega

/-- The text of the bytes, or their first fault. -/
def decode (bytes : List UInt8) : Except Fault (List Char) :=
  decodeAt 0 bytes

/-- The text of the bytes, with one replacement character for each fault. -/
def decodeReplacing (bytes : List UInt8) : List Char :=
  match bytes with
  | [] => []
  | b :: rest =>
      match step b rest with
      | .char c taken => c :: decodeReplacing (rest.drop taken)
      | .fault _ taken => Char.ofNat 0xFFFD :: decodeReplacing (rest.drop taken)
termination_by bytes.length
decreasing_by all_goals simp only [List.length_drop, List.length_cons]; omega

/-- The bytes that mark a file as UTF-8. -/
def byteOrderMark : List UInt8 := [0xEF, 0xBB, 0xBF]

/--
The text of the bytes after a byte order mark, if there is one.  Bytes that end inside a mark
are no text at all.
-/
def decodeMarked (bytes : List UInt8) : Except Fault (List Char) :=
  if byteOrderMark.isPrefixOf bytes then decode (bytes.drop byteOrderMark.length)
  else if bytes.isPrefixOf byteOrderMark then .ok []
  else decode bytes

/-- The bytes of a character. -/
def encodeChar (c : Char) : List UInt8 :=
  let n := c.toNat
  let tail (m : Nat) : UInt8 := UInt8.ofNat (0x80 + m % 0x40)
  if n < 0x80 then [UInt8.ofNat n]
  else if n < 0x800 then [UInt8.ofNat (0xC0 + n / 0x40), tail n]
  else if n < 0x10000 then [UInt8.ofNat (0xE0 + n / 0x1000), tail (n / 0x40), tail n]
  else [UInt8.ofNat (0xF0 + n / 0x40000), tail (n / 0x1000), tail (n / 0x40), tail n]

/-- The bytes of a text. -/
def encode (text : List Char) : List UInt8 :=
  text.flatMap encodeChar

end Utf8
end NuspecLint
