/-!
# Lines and positions

**Input.**  A document text.

**Algorithm.**  The line table holds the offset at which each line starts: the start of the text,
and the place after each line end (`\r\n`, a lone `\r` or a lone `\n`).  An offset belongs to
the last line that does not start after it.

**Results.**
* `LineTable.positionAt` and `LineTable.offsetAt`: between offsets and positions, both clamped to
  the text so that neither fails.
* `LineTable.rangeOf`: the range between two offsets, never inverted.
-/

namespace NuspecLint

/-- A line and a character in it, both counted from zero, in code points. -/
structure Position where
  line : Int
  character : Int
  deriving Repr, DecidableEq

/-- The half-open span between two positions. -/
structure Range where
  start : Position
  stop : Position
  deriving Repr, DecidableEq

/-- The offsets at which the lines of a text after the first start; the text stands at `offset`. -/
def lineStartsFrom (offset : Nat) : List Char → List Nat
  | [] => []
  | '\r' :: '\n' :: s => (offset + 2) :: lineStartsFrom (offset + 2) s
  | c :: s =>
      if c = '\r' ∨ c = '\n' then (offset + 1) :: lineStartsFrom (offset + 1) s
      else lineStartsFrom (offset + 1) s

/-- The offset at which the last of some lines that do not start after `offset` starts. -/
def locate (offset : Nat) : Nat → Nat → List Nat → Nat × Nat
  | line, start, [] => (line, start)
  | line, start, next :: rest =>
      if next ≤ offset then locate offset (line + 1) next rest else (line, start)

/-- Where the lines of a text start, and how long the text is. -/
structure LineTable where
  length : Nat
  /-- Starts of the lines after the first, which starts at zero. -/
  laterStarts : List Nat
  deriving Repr, DecidableEq

namespace LineTable

/-- The line table of a text. -/
def ofText (text : List Char) : LineTable :=
  ⟨text.length, lineStartsFrom 0 text⟩

/-- The offsets at which lines start, in increasing order. -/
def lineStarts (t : LineTable) : List Nat :=
  0 :: t.laterStarts

/-- The offset in the text that is nearest to an integer. -/
def clamp (t : LineTable) (offset : Int) : Nat :=
  min offset.toNat t.length

/-- The position of an offset, after clamping. -/
def positionAt (t : LineTable) (offset : Int) : Position :=
  let offset := t.clamp offset
  let found := locate offset 0 0 t.laterStarts
  ⟨found.1, offset - found.2⟩

/--
The offset of a position.  A line outside the table becomes the nearest line, and a character
outside its line becomes the nearest offset of that line, its line end included.
-/
def offsetAt (t : LineTable) (p : Position) : Nat :=
  let line := min p.line.toNat t.laterStarts.length
  let start := t.lineStarts.getD line 0
  let stop := t.lineStarts.getD (line + 1) t.length
  max start (min (start + p.character) stop).toNat

/-- The range between two offsets after clamping; one that would end before it starts is empty. -/
def rangeOf (t : LineTable) (start stop : Int) : Range :=
  let first := t.clamp start
  let last := max first (t.clamp stop)
  ⟨t.positionAt first, t.positionAt last⟩

end LineTable

end NuspecLint
