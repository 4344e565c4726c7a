import NuspecLint.Markup.Node
import NuspecLint.Markup.Piece
import NuspecLint.Text.Case

/-!
# From pieces to a document tree

**Input.**  The pieces of a manifest text, in order.

**Algorithm.**  The elements that are open form the spine of the tree under construction.  Each
piece is added below the innermost of them: a start tag opens an element or adds one that
closes itself, plain text that touches the text before it extends that text, and a CDATA
section adds a text of its own.  An end tag closes the innermost open element of exactly its
name or, failing that, of its name up to case; what is open inside that element ends where the
end tag starts.  An end tag that closes nothing is dropped, and so are comments, instructions
and declarations.  At the end of the text everything still open ends with it.

**Results.**
* `parse`: the document tree of a text, or the enclosure that the text never closes.
-/

namespace NuspecLint
namespace Markup

open Text

/-- An element that is still open, with what has been put into it so far, newest first. -/
structure OpenElement where
  name : List Char
  attributes : List Attribute
  start : Nat
  startTagEnd : Nat
  newest : List Node

namespace OpenElement

/-- The finished element, ended at `stop` by the end tag at `endTagStart`, if there is one. -/
def close (e : OpenElement) (endTagStart : Option Nat) (stop : Nat) : Node :=
  .element ⟨e.name, e.attributes, e.start, e.startTagEnd, endTagStart, stop, false⟩
    e.newest.reverse

end OpenElement

/--
A tree under construction: the open elements, innermost first, and the finished nodes outside
all of them, newest first.
-/
structure Spine where
  opened : List OpenElement
  newest : List Node

namespace Spine

/-- Nothing read yet. -/
def empty : Spine := ⟨[], []⟩

/-- Change the finished nodes directly inside the innermost open element. -/
def modifyNewest (f : List Node → List Node) (s : Spine) : Spine :=
  match s.opened with
  | [] => { s with newest := f s.newest }
  | e :: outer => { s with opened := { e with newest := f e.newest } :: outer }

/-- Add a finished node. -/
def add (n : Node) (s : Spine) : Spine :=
  s.modifyNewest (n :: ·)

/-- Put a run of text behind finished nodes; a text that ends where the run starts grows by it. -/
def appendRun (start : Nat) (run : List Char) : List Node → List Node
  | .text first stop value :: rest =>
      if stop = start then .text first (start + run.length) (value ++ run) :: rest
      else .text start (start + run.length) run :: .text first stop value :: rest
  | nodes => .text start (start + run.length) run :: nodes

/-- Close the `count` innermost open elements at `stop`, none of them by an end tag. -/
def abandon (stop : Nat) : Nat → Spine → Spine
  | 0, s => s
  | count + 1, s =>
      match s.opened with
      | [] => s
      | e :: outer => abandon stop count (add (e.close none stop) ⟨outer, s.newest⟩)

/-- Close the innermost open element by the end tag on `[start, stop)`. -/
def closeInnermost (start stop : Nat) (s : Spine) : Spine :=
  match s.opened with
  | [] => s
  | e :: outer => add (e.close (some start) stop) ⟨outer, s.newest⟩

/--
How many open elements lie inside the one that an end tag called `name` closes: the innermost
of exactly that name, else the innermost of that name up to case.
-/
def depthOf? (name : List Char) (opened : List OpenElement) : Option Nat :=
  match opened.findIdx? (·.name = name) with
  | some depth => some depth
  | none =>
      let folded := lower name
      opened.findIdx? (lower ·.name = folded)

/-- Take in the piece that stands at `start`. -/
def step (start : Nat) (p : Piece) (s : Spine) : Spine :=
  let stop := start + p.raw.length
  match p with
  | .skipped .. => s
  | .cdata content =>
      let first := start + Enclosure.cdata.opening.length
      s.add (.text first (first + content.length) content)
  | .text run => s.modifyNewest (appendRun start run)
  | .startTag tag =>
      let attributes := attributesAt (start + 1 + tag.name.length) tag.attributePart
      if tag.selfClosing then
        s.add (.element ⟨tag.name, attributes, start, stop, none, stop, true⟩ [])
      else { s with opened := ⟨tag.name, attributes, start, stop, []⟩ :: s.opened }
  | .endTag tag =>
      match depthOf? tag.name s.opened with
      | none => s
      | some depth => (s.abandon start depth).closeInnermost start stop

/-- Take in all pieces of a text, the first of which stands at `start`. -/
def run : Nat → List Piece → Spine → Spine
  | _, [], s => s
  | start, p :: rest, s => run (start + p.raw.length) rest (s.step start p)

/-- The document of a text of the given length, once all of it has been taken in. -/
def finish (length : Nat) (s : Spine) : Node :=
  .document length (s.abandon length s.opened.length).newest.reverse

end Spine

/-- The document tree of a text. -/
def parse (text : List Char) : Except Unterminated Node :=
  (pieces text).map fun ps => (Spine.empty.run 0 ps).finish text.length

end Markup
end NuspecLint
