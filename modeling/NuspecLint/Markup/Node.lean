import NuspecLint.Markup.Attribute

/-!
# Document trees

The tree of a manifest: a document holds elements and texts, an element holds more of them.
Every node knows the half-open span of code points that it covers.

**Results.**
* `Node.descendants` lists the nodes below a node, each before those below it, by a walk with an
  explicit list of nodes still to visit.
-/

namespace NuspecLint
namespace Markup

/-- What an element is, apart from what it holds. -/
structure Element where
  name : List Char
  attributes : List Attribute
  /-- Offset of the `<` of the start tag. -/
  start : Nat
  /-- Offset just past the `>` of the start tag. -/
  startTagEnd : Nat
  /-- Offset of the `<` of the end tag; none if the element closes itself or is never closed. -/
  endTagStart : Option Nat
  /-- Offset just past the element. -/
  stop : Nat
  selfClosing : Bool
  deriving Repr, DecidableEq

/-- A node of a document tree. -/
inductive Node where
  | document (length : Nat) (children : List Node)
  | element (element : Element) (children : List Node)
  | text (start stop : Nat) (value : List Char)

namespace Node

/-- The nodes directly below a node, in document order. -/
def children : Node → List Node
  | document _ nodes => nodes
  | element _ nodes => nodes
  | text .. => []

/-- Offset of the first character of a node. -/
def start : Node → Nat
  | document .. => 0
  | element e _ => e.start
  | text start .. => start

/-- Offset just past the last character of a node. -/
def stop : Node → Nat
  | document length _ => length
  | element e _ => e.stop
  | text _ stop _ => stop

/-- The name of an element; other nodes have none. -/
def name : Node → List Char
  | element e _ => e.name
  | _ => []

/-- Whether a node is a text. -/
def isText : Node → Bool
  | text .. => true
  | _ => false

/-- Whether a node is an element. -/
def isElement : Node → Bool
  | element .. => true
  | _ => false

/-- The characters of a text. -/
def textValue : Node → List Char
  | text _ _ value => value
  | _ => []

/--
The span between the tags of an element.  An element that closes itself has no such span and
gives its whole tag instead; other nodes give their own span.
-/
def contentSpan : Node → Nat × Nat
  | element e _ =>
      if e.selfClosing then (e.start, e.stop)
      else (e.startTagEnd, e.endTagStart.getD e.stop)
  | n => (n.start, n.stop)

mutual

/-- How many nodes a tree has. -/
def size : Node → Nat
  | document _ nodes => sizeAll nodes + 1
  | element _ nodes => sizeAll nodes + 1
  | text .. => 1

/-- How many nodes a list of trees has. -/
def sizeAll : List Node → Nat
  | [] => 0
  | n :: nodes => size n + sizeAll nodes

end

theorem sizeAll_append (xs ys : List Node) :
    sizeAll (xs ++ ys) = sizeAll xs + sizeAll ys := by
  induction xs with
  | nil => simp [sizeAll]
  | cons n xs ih => simp [sizeAll, ih, Nat.add_assoc]

theorem size_eq_sizeAll_children (n : Node) :
    n.size = sizeAll n.children + 1 := by
  cases n <;> simp [size, children, sizeAll]

/-- Visit the pending nodes in order, each followed by its children. -/
def walk (pending : List Node) : List Node :=
  match pending with
  | [] => []
  | n :: rest => n :: walk (n.children ++ rest)
termination_by sizeAll pending
decreasing_by
  rw [sizeAll_append, sizeAll, size_eq_sizeAll_children]
  omega

/-- The nodes below a node, and the node itself if wanted, that satisfy `keep`. -/
def descendants (keep : Node → Bool) (includeSelf : Bool) (n : Node) : List Node :=
  (walk (if includeSelf then [n] else n.children)).filter keep

/-- The concatenated text of everything below a node. -/
def contentValue (n : Node) : List Char :=
  (n.descendants isText false).flatMap textValue

end Node

end Markup
end NuspecLint
