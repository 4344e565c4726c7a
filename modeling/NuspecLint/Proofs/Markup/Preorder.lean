import NuspecLint.Markup.Node
import Mathlib.Tactic

/-!
# Nodes of a tree in document order

The walk through a tree keeps an explicit list of nodes still to visit.  Here it is compared
with the listing by recursion, in which a node stands before everything below it, and a
subtree before its later siblings.

**Results.**
* `Node.forest_induction`: what holds of no trees at all, and of a tree and its later siblings
  as soon as it holds of what is below the tree and of the siblings, holds of every list of
  trees.
* `Node.walk_eq_preorderAll`: the walk lists the nodes in that order.
-/

namespace NuspecLint
namespace Markup
namespace Node

mutual

/-- A node and everything below it, in document order. -/
def preorder : Node → List Node
  | document length nodes => document length nodes :: preorderAll nodes
  | element e nodes => element e nodes :: preorderAll nodes
  | text start stop value => [text start stop value]

/-- The nodes of a list of trees, in document order. -/
def preorderAll : List Node → List Node
  | [] => []
  | n :: nodes => preorder n ++ preorderAll nodes

end

/-- Every node stands before what is below it. -/
theorem preorder_eq_cons (n : Node) :
    n.preorder = n :: preorderAll n.children := by
  cases n <;> simp [preorder, children, preorderAll]

@[simp] theorem preorderAll_nil :
    preorderAll [] = [] := by
  simp [preorderAll]

@[simp] theorem preorderAll_cons
    (n : Node) (nodes : List Node) :
    preorderAll (n :: nodes) =
      n :: (preorderAll n.children ++ preorderAll nodes) := by
  simp [preorderAll, preorder_eq_cons]

@[simp] theorem preorderAll_append (xs ys : List Node) :
    preorderAll (xs ++ ys) =
      preorderAll xs ++ preorderAll ys := by
  induction xs with
  | nil =>
      simp
  | cons n xs ih =>
      simp [ih]

theorem mem_preorderAll_reverse
    {m : Node} {nodes : List Node} :
    m ∈ preorderAll nodes.reverse ↔ m ∈ preorderAll nodes := by
  induction nodes with
  | nil =>
      simp
  | cons n nodes ih =>
      simp only [List.reverse_cons, preorderAll_append, preorderAll_cons, preorderAll_nil,
        List.mem_append, List.mem_cons, List.append_nil, ih]
      tauto

/-- Induction over lists of trees: below the first tree, and on to its later siblings. -/
@[elab_as_elim]
theorem forest_induction
    {motive : List Node → Prop}
    (nil : motive [])
    (cons : ∀ (n : Node) (nodes : List Node),
      motive n.children → motive nodes → motive (n :: nodes))
    (nodes : List Node) :
    motive nodes :=
  match nodes with
  | [] => nil
  | n :: nodes =>
      cons n nodes
        (forest_induction nil cons n.children)
        (forest_induction nil cons nodes)
termination_by sizeAll nodes
decreasing_by
  · have hn := size_eq_sizeAll_children n
    rw [sizeAll]
    omega
  · have hn := size_eq_sizeAll_children n
    rw [sizeAll]
    omega

theorem mem_preorderAll_of_beneath
    {m n : Node} {nodes : List Node}
    (hm : m ∈ preorderAll nodes)
    (hn : n ∈ preorderAll m.children) :
    n ∈ preorderAll nodes := by
  induction nodes using forest_induction with
  | nil =>
      simp at hm
  | cons d nodes ihBelow ihAfter =>
      simp only [preorderAll_cons, List.mem_cons, List.mem_append] at hm ⊢
      rcases hm with rfl | hm | hm
      · exact Or.inr (Or.inl hn)
      · exact Or.inr (Or.inl (ihBelow hm))
      · exact Or.inr (Or.inr (ihAfter hm))

/-- The walk with a list of pending nodes lists the nodes in document order. -/
theorem walk_eq_preorderAll (pending : List Node) :
    walk pending = preorderAll pending := by
  fun_induction walk pending with
  | case1 =>
      simp
  | case2 n rest ih =>
      simp [ih]

/-- Everything in a tree, in document order. -/
def nodes (tree : Node) : List Node :=
  tree.descendants (fun _ => true) true

/-- Everything below a node, in document order. -/
def beneath (n : Node) : List Node :=
  n.descendants (fun _ => true) false

theorem beneath_eq_preorderAll (n : Node) :
    n.beneath = preorderAll n.children := by
  simp [beneath, descendants, walk_eq_preorderAll]

theorem nodes_eq_cons (tree : Node) :
    tree.nodes = tree :: tree.beneath := by
  simp [nodes, beneath_eq_preorderAll, descendants, walk_eq_preorderAll]

end Node
end Markup
end NuspecLint
