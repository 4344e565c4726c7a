import NuspecLint.Position
import NuspecLint.Text.Newline

/-!
# Client units

A client counts the characters of a line in units of an encoding that it agrees on with the
server.  Its lines are the lines of editors, which end after more separators than those of the
line table.

**Results.**
* `Encoding.toClient` and `Encoding.ofClient`: between code points and units.
-/

namespace NuspecLint

/-- The encodings whose units a client may count in. -/
inductive Encoding where
  | utf8
  | utf16
  | utf32
  deriving Repr, DecidableEq

/-- A position as a client counts it. -/
structure ClientPosition where
  line : Nat
  character : Nat
  deriving Repr, DecidableEq

/-- The half-open span between two positions of a client. -/
structure ClientRange where
  start : ClientPosition
  stop : ClientPosition
  deriving Repr, DecidableEq

namespace Encoding

/-- The name of an encoding on the wire. -/
def name : Encoding → String
  | utf8 => "utf-8"
  | utf16 => "utf-16"
  | utf32 => "utf-32"

/-- The encoding of a name. -/
def ofName? (s : String) : Option Encoding :=
  [utf8, utf16, utf32].find? fun e => e.name = s

/-- The first encoding that a client offers and the server knows; UTF-16 if there is none. -/
def negotiate (offered : List String) : Encoding :=
  (offered.findSome? ofName?).getD utf16

/-- The units of a character. -/
def units (e : Encoding) (c : Char) : Nat :=
  match e with
  | utf8 =>
      if c.toNat < 0x80 then 1
      else if c.toNat < 0x800 then 2
      else if c.toNat < 0x10000 then 3
      else 4
  | utf16 => if c.toNat < 0x10000 then 1 else 2
  | utf32 => 1

/-- The units of a text. -/
def width (e : Encoding) : List Char → Nat
  | [] => 0
  | c :: s => e.units c + e.width s

/-- A place in the lines of a text, counted in units; past the last line there is one place. -/
def toClient (e : Encoding) (lines : List (List Char)) (line character : Nat) : ClientPosition :=
  match lines[line]? with
  | none => ⟨lines.length, 0⟩
  | some text => ⟨line, e.width (text.take character)⟩

/-- How many characters of a text it takes to reach the given number of units. -/
def reach (e : Encoding) (wanted : Nat) : List Char → Nat
  | [] => 0
  | c :: s => if wanted = 0 then 0 else e.reach (wanted - e.units c) s + 1

/--
A place of a client in the lines of a text, counted in code points.  Past the last line it is the
end of that line, still counted in units; past the end of a line it is the place one unit before
that end, where a line end of two characters counts as one.
-/
def ofClient (e : Encoding) (lines : List (List Char)) (p : ClientPosition) : ClientPosition :=
  match lines[p.line]? with
  | some text =>
      let text := Text.joinReturnFeeds text
      let all := e.width text
      ⟨p.line, e.reach (if all < p.character then all - 1 else p.character) text⟩
  | none =>
      match lines.getLast? with
      | none => ⟨0, 0⟩
      | some text => ⟨lines.length - 1, e.width text⟩

end Encoding

end NuspecLint
