import NuspecLint.Proofs.Markup.Preorder

/-!
# Addresses in a tree

Two nodes of a tree may look the same; what tells them apart is the way down to them.  An address
lists, from the root on, which child to go to.

**Results.**
* `Node.at?_append` and `Node.modifyAt_append`: the way down can be taken in two parts.
* `Node.at?_modifyAt_of_not_prefix`: a change at one address leaves the nodes at other addresses as
  they are, unless they lie on the way to it.
-/

namespace NuspecLint
namespace Markup
namespace Node

/-- The node at an address. -/
def at? : Node → List Nat → Option Node
  | n, [] => some n
  | n, i :: address => n.children[i]?.bind (·.at? address)

@[simp] theorem at?_nil (n : Node) :
    n.at? [] = some n := by
  rfl

theorem at?_cons (n : Node) (i : Nat) (address : List Nat) :
    n.at? (i :: address) = n.children[i]?.bind (·.at? address) := by
  rfl

/-- Going down an address and then another from there. -/
theorem at?_append (n : Node) (a b : List Nat) :
    n.at? (a ++ b) = (n.at? a).bind (·.at? b) := by
  induction a generalizing n with
  | nil =>
      rfl
  | cons i a ih =>
      rw [List.cons_append, at?_cons, at?_cons]
      cases n.children[i]? with
      | none =>
          rfl
      | some c =>
          exact ih c

theorem mem_preorder_of_at?
    {n m : Node} {address : List Nat}
    (h : n.at? address = some m) :
    m ∈ n.preorder := by
  induction address generalizing n with
  | nil =>
      cases h
      simp [preorder_eq_cons]
  | cons i address ih =>
      obtain ⟨c, hc, hm⟩ := Option.bind_eq_some_iff.mp h
      have hmem := ih hm
      rw [preorder_eq_cons] at hmem ⊢
      obtain ⟨before, after, hsplit⟩ := List.append_of_mem (List.mem_of_getElem? hc)
      rw [hsplit, preorderAll_append, preorderAll_cons]
      rcases List.mem_cons.mp hmem with rfl | hmem
      · simp
      · simp [hmem]

/-- The node with other children; a text has none. -/
def withChildren (f : List Node → List Node) : Node → Node
  | document length nodes => document length (f nodes)
  | element e nodes => element e (f nodes)
  | text start stop value => text start stop value

/-- The element with other properties and the same children. -/
def withElement (f : Element → Element) : Node → Node
  | element e nodes => element (f e) nodes
  | n => n

/-- The node with one more child, behind the others. -/
def append (n child : Node) : Node :=
  n.withChildren (· ++ [child])

/-- The tree with the node at an address changed. -/
def modifyAt (f : Node → Node) : Node → List Nat → Node
  | n, [] => f n
  | n, i :: address => n.withChildren fun nodes => nodes.modify i fun c => c.modifyAt f address

@[simp] theorem modifyAt_nil (f : Node → Node) (n : Node) :
    n.modifyAt f [] = f n := by
  rfl

theorem modifyAt_cons (f : Node → Node) (n : Node) (i : Nat) (address : List Nat) :
    n.modifyAt f (i :: address) =
      n.withChildren fun nodes => nodes.modify i fun c => c.modifyAt f address := by
  rfl

/-- A change further down is a change of the node on the way. -/
theorem modifyAt_append (f : Node → Node) (n : Node) (a b : List Nat) :
    n.modifyAt f (a ++ b) = n.modifyAt (fun m => m.modifyAt f b) a := by
  induction a generalizing n with
  | nil =>
      rfl
  | cons i a ih =>
      simp only [List.cons_append, modifyAt_cons, ih]

@[simp] theorem children_withElement (f : Element → Element) (n : Node) :
    (n.withElement f).children = n.children := by
  cases n <;> rfl

theorem children_withChildren
    {f : List Node → List Node} {n : Node}
    (hn : n.children ≠ []) :
    (n.withChildren f).children = f n.children := by
  cases n with
  | text start stop value =>
      exact absurd rfl hn
  | document length nodes =>
      rfl
  | element e nodes =>
      rfl

theorem children_modifyAt_cons (f : Node → Node) (n : Node) (i : Nat) (address : List Nat) :
    (n.modifyAt f (i :: address)).children =
      n.children.modify i fun c => c.modifyAt f address := by
  cases n <;> simp [modifyAt_cons, withChildren, children]

theorem withChildren_congr
    {f g : List Node → List Node} {n : Node}
    (h : f n.children = g n.children) :
    n.withChildren f = n.withChildren g := by
  cases n with
  | text start stop value =>
      rfl
  | document length nodes =>
      exact congrArg (document length) h
  | element e nodes =>
      exact congrArg (element e) h

/-- Only what a change makes of the node that stands there matters. -/
theorem modifyAt_congr
    {f g : Node → Node} {n m : Node} {address : List Nat}
    (hm : n.at? address = some m)
    (h : f m = g m) :
    n.modifyAt f address = n.modifyAt g address := by
  induction address generalizing n with
  | nil =>
      cases hm
      exact h
  | cons i address ih =>
      obtain ⟨c, hc, hcm⟩ := Option.bind_eq_some_iff.mp hm
      rw [modifyAt_cons, modifyAt_cons]
      apply withChildren_congr
      obtain ⟨hlt, rfl⟩ := List.getElem?_eq_some_iff.mp hc
      rw [List.modify_eq_take_cons_drop hlt, List.modify_eq_take_cons_drop hlt, ih hcm]

/-- What stands at the addresses of a node after a change below it. -/
theorem at?_modifyAt_cons
    {f : Node → Node} {n : Node} {i j : Nat} {a b : List Nat} :
    (n.modifyAt f (i :: b)).at? (j :: a) =
      n.children[j]?.bind fun c => if i = j then (c.modifyAt f b).at? a else c.at? a := by
  rw [at?_cons, children_modifyAt_cons, List.getElem?_modify]
  cases n.children[j]? with
  | none =>
      rfl
  | some c =>
      by_cases hij : i = j <;> simp [hij]

/--
A change at one address leaves a node at another as it is, if that node is not on the way and the
change itself keeps it.
-/
theorem at?_modifyAt_of_not_prefix
    {f : Node → Node} {n m : Node} {a b : List Nat}
    (hm : n.at? a = some m)
    (hab : ¬ a <+: b)
    (hf : ∀ parent rest, n.at? b = some parent → a = b ++ rest →
      parent.at? rest = some m → (f parent).at? rest = some m) :
    (n.modifyAt f b).at? a = some m := by
  induction b generalizing n a with
  | nil =>
      exact hf n a rfl rfl hm
  | cons i b ih =>
      cases a with
      | nil =>
          exact absurd List.nil_prefix hab
      | cons j a =>
          obtain ⟨c, hc, hcm⟩ := Option.bind_eq_some_iff.mp hm
          rw [at?_modifyAt_cons, hc]
          by_cases hij : i = j
          · subst hij
            rw [Option.bind_some, if_pos rfl]
            apply ih hcm
            · intro hprefix
              exact hab (List.cons_prefix_cons.mpr ⟨rfl, hprefix⟩)
            · intro parent rest hparent hrest hparentRest
              apply hf parent rest
              · simp [at?_cons, hc, hparent]
              · rw [hrest, List.cons_append]
              · exact hparentRest
          · rw [Option.bind_some, if_neg hij]
            exact hcm

end Node
end Markup
end NuspecLint
