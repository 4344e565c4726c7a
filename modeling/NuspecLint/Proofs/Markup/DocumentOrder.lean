import NuspecLint.Proofs.Markup.Address
import NuspecLint.Proofs.Markup.Content

/-!
# Document order

The walk through a tree lists every node exactly once, by increasing address, and the nodes of a
parsed text by increasing offset.

**View.**  Addresses are compared number by number, and an address comes before those it leads on
to.  So a node stands before everything below it, and a subtree before its later siblings.

**Results.**
* `Node.addressesFrom_ordered`, `Node.mem_addressesFrom_iff` and `Node.map_addressesFrom`: the nodes
  in document order have increasing addresses, and every address of the tree is among them.
* `Node.descendants_in_order`: what the walk lists, for any tree and for parsed ones.
-/

namespace NuspecLint
namespace Markup
namespace Node

/-- The addresses of the nodes of some trees, of which the first has the number `i`. -/
def addressesFrom (i : Nat) (nodes : List Node) : List (List Nat) :=
  match nodes with
  | [] => []
  | n :: nodes =>
      [i] :: ((addressesFrom 0 n.children).map (i :: ·) ++ addressesFrom (i + 1) nodes)
termination_by sizeAll nodes
decreasing_by
  · rw [sizeAll, size_eq_sizeAll_children]
    omega
  · rw [sizeAll, size_eq_sizeAll_children]
    omega

@[simp] theorem addressesFrom_nil (i : Nat) :
    addressesFrom i [] = [] := by
  rw [addressesFrom]

theorem addressesFrom_cons (i : Nat) (n : Node) (nodes : List Node) :
    addressesFrom i (n :: nodes) =
      [i] :: ((addressesFrom 0 n.children).map (i :: ·) ++ addressesFrom (i + 1) nodes) := by
  rw [addressesFrom]

theorem exists_cons_of_mem_addressesFrom
    {i : Nat} {nodes : List Node} {address : List Nat}
    (h : address ∈ addressesFrom i nodes) :
    ∃ j rest, address = j :: rest ∧ i ≤ j := by
  induction nodes generalizing i with
  | nil =>
      simp at h
  | cons n nodes ih =>
      rw [addressesFrom_cons] at h
      rcases List.mem_cons.mp h with rfl | h
      · exact ⟨i, [], rfl, Nat.le_refl i⟩
      · rcases List.mem_append.mp h with h | h
        · obtain ⟨rest, _, rfl⟩ := List.mem_map.mp h
          exact ⟨i, rest, rfl, Nat.le_refl i⟩
        · obtain ⟨j, rest, rfl, hle⟩ := ih h
          exact ⟨j, rest, rfl, by omega⟩

/-- The addresses below a node lead to the nodes below it, in document order. -/
theorem map_addressesFrom
    {nodes : List Node} (before : List Node) (parent : Node)
    (h : parent.children = before ++ nodes) :
    (addressesFrom before.length nodes).map parent.at? = (preorderAll nodes).map some := by
  induction nodes using forest_induction generalizing parent before with
  | nil =>
      simp
  | cons n nodes ihBelow ihAfter =>
      have hn : parent.children[before.length]? = some n := by
        simp [h]
      have hbelow : ((addressesFrom 0 n.children).map (before.length :: ·)).map parent.at? =
          (preorderAll n.children).map some := by
        rw [← ihBelow [] n rfl, List.map_map]
        apply List.map_congr_left
        intro address _
        simp [at?_cons, hn]
      have hafter := ihAfter (before ++ [n]) parent (by simp [h])
      rw [List.length_append, List.length_singleton] at hafter
      rw [addressesFrom_cons, preorderAll_cons, List.map_cons, List.map_append, hbelow, hafter]
      simp [at?_cons, hn]

/-- Every address below a node is listed. -/
theorem mem_addressesFrom_iff
    {nodes : List Node} (before : List Node) (parent : Node) (address : List Nat)
    (h : parent.children = before ++ nodes) :
    address ∈ addressesFrom before.length nodes ↔
      (∃ i rest, address = i :: rest ∧ before.length ≤ i) ∧ (parent.at? address).isSome := by
  induction nodes using forest_induction generalizing parent before address with
  | nil =>
      rw [addressesFrom_nil]
      constructor
      · intro hmem
        cases hmem
      · rintro ⟨⟨i, rest, rfl, hle⟩, hsome⟩
        have hnone : parent.children[i]? = none := by
          simpa [h] using hle
        simp [at?_cons, hnone] at hsome
  | cons n nodes ihBelow ihAfter =>
      have hn : parent.children[before.length]? = some n := by
        simp [h]
      have hbelow := fun address => ihBelow [] n address rfl
      have hafter := ihAfter (before ++ [n]) parent address (by simp [h])
      rw [List.length_append, List.length_singleton] at hafter
      rw [addressesFrom_cons, List.mem_cons, List.mem_append, List.mem_map, hafter]
      constructor
      · rintro (rfl | ⟨rest, hrest, rfl⟩ | ⟨⟨i, rest, rfl, hle⟩, hsome⟩)
        · exact ⟨⟨_, _, rfl, Nat.le_refl _⟩, by simp [at?_cons, hn]⟩
        · exact ⟨⟨_, _, rfl, Nat.le_refl _⟩,
            by simpa [at?_cons, hn] using ((hbelow rest).mp hrest).2⟩
        · exact ⟨⟨i, rest, rfl, by omega⟩, hsome⟩
      · rintro ⟨⟨i, rest, rfl, hle⟩, hsome⟩
        rcases Nat.eq_or_lt_of_le hle with rfl | hlt
        · -- The way leads to the first tree: to its root, or further down.
          cases rest with
          | nil =>
              exact Or.inl rfl
          | cons j rest =>
              refine Or.inr (Or.inl ⟨j :: rest, (hbelow _).mpr ⟨⟨j, rest, rfl, ?_⟩, ?_⟩, rfl⟩)
              · exact Nat.zero_le j
              · rw [at?_cons, hn] at hsome
                exact hsome
        · exact Or.inr (Or.inr ⟨⟨i, rest, rfl, hlt⟩, hsome⟩)

/-- In document order the addresses increase, a node before everything below it. -/
theorem addressesFrom_ordered (i : Nat) (nodes : List Node) :
    (addressesFrom i nodes).Pairwise (· < ·) := by
  induction nodes using forest_induction generalizing i with
  | nil =>
      simp
  | cons n nodes ihBelow ihAfter =>
      rw [addressesFrom_cons]
      refine List.pairwise_cons.mpr ⟨?_, List.pairwise_append.mpr ⟨?_, ihAfter (i + 1), ?_⟩⟩
      · intro address haddress
        rcases List.mem_append.mp haddress with haddress | haddress
        · obtain ⟨rest, hrest, rfl⟩ := List.mem_map.mp haddress
          obtain ⟨k, tail, rfl, _⟩ := exists_cons_of_mem_addressesFrom hrest
          simp
        · obtain ⟨k, tail, rfl, hle⟩ := exists_cons_of_mem_addressesFrom haddress
          exact List.cons_lt_cons_iff.mpr (Or.inl (by omega))
      · refine List.pairwise_map.mpr ((ihBelow 0).imp ?_)
        intro a b hab
        exact List.cons_lt_cons_iff.mpr (Or.inr ⟨rfl, hab⟩)
      · intro a ha b hb
        obtain ⟨rest, hrest, rfl⟩ := List.mem_map.mp ha
        obtain ⟨k, tail, rfl, hle⟩ := exists_cons_of_mem_addressesFrom hb
        exact List.cons_lt_cons_iff.mpr (Or.inl (by omega))

/-- The addresses of a tree, that of its root only if wanted. -/
def addresses (includeSelf : Bool) (tree : Node) : List (List Nat) :=
  (if includeSelf then [[]] else []) ++ addressesFrom 0 tree.children

theorem addresses_ordered (includeSelf : Bool) (tree : Node) :
    (tree.addresses includeSelf).Pairwise (· < ·) := by
  cases includeSelf with
  | false =>
      exact addressesFrom_ordered 0 tree.children
  | true =>
      refine List.pairwise_cons.mpr ⟨?_, addressesFrom_ordered 0 tree.children⟩
      intro address haddress
      obtain ⟨i, rest, rfl, _⟩ := exists_cons_of_mem_addressesFrom haddress
      simp

theorem mem_addresses_iff
    {includeSelf : Bool} {tree : Node} {address : List Nat} :
    address ∈ tree.addresses includeSelf ↔
      (tree.at? address).isSome ∧ (includeSelf = true ∨ address ≠ []) := by
  have hbelow : address ∈ addressesFrom 0 tree.children ↔
      address ≠ [] ∧ (tree.at? address).isSome := by
    rw [← List.length_nil (α := Node),
      mem_addressesFrom_iff [] tree address (List.nil_append tree.children).symm]
    cases address <;> simp
  rw [addresses, List.mem_append, hbelow]
  cases includeSelf with
  | false =>
      simp
      tauto
  | true =>
      cases address <;> simp

theorem map_addresses (includeSelf : Bool) (tree : Node) :
    (tree.addresses includeSelf).map tree.at? =
      (walk (if includeSelf then [tree] else tree.children)).map some := by
  have hbelow := map_addressesFrom [] tree (List.nil_append tree.children).symm
  rw [List.length_nil] at hbelow
  rw [addresses, List.map_append, hbelow, walk_eq_preorderAll]
  cases includeSelf <;> simp

/-- The nodes below a node of a parsed document start further and further on. -/
theorem walk_pairwise_start_lt
    {source : List Char} {tree n : Node} {address : List Nat}
    (h : parse source = .ok tree)
    (hn : tree.at? address = some n) :
    (preorderAll n.children).Pairwise (fun c d => c.start < d.start) := by
  obtain ⟨nodes, rfl, _, hplaced, hordered⟩ := forest_of_parse h
  have hmem := mem_preorder_of_at? hn
  rw [preorder_eq_cons] at hmem
  rcases List.mem_cons.mp hmem with rfl | hmem
  · exact pairwise_start_lt hplaced hordered
  · exact pairwise_start_lt (hplaced.beneath hmem) (hplaced n hmem).children_ordered

/--
**Document order.**  The walk lists the nodes that recursion lists, a node before everything below
it; it comes to each of them once, by increasing address, and to the nodes of a parsed text by
increasing offset.
-/
theorem descendants_in_order (tree : Node) (keep : Node → Bool) (includeSelf : Bool) :
    tree.descendants keep includeSelf =
      (if includeSelf then tree.preorder else preorderAll tree.children).filter keep ∧
    (∃ addresses : List (List Nat),
      addresses.Pairwise (· < ·) ∧
      (∀ address, address ∈ addresses ↔
        ∃ n, tree.at? address = some n ∧ keep n = true ∧ (includeSelf = true ∨ address ≠ [])) ∧
      (tree.descendants keep includeSelf).map some = addresses.map tree.at?) ∧
    (∀ source, parse source = .ok tree →
      ∀ address n, tree.at? address = some n →
        (n.descendants keep false).Pairwise (fun c d => c.start < d.start)) := by
  refine ⟨?_, ⟨(tree.addresses includeSelf).filter fun address => (tree.at? address).any keep,
    (addresses_ordered includeSelf tree).filter _, ?_, ?_⟩, ?_⟩
  · rw [descendants, walk_eq_preorderAll]
    cases includeSelf <;> simp [preorder_eq_cons]
  · intro address
    rw [List.mem_filter, mem_addresses_iff]
    cases tree.at? address with
    | none =>
        simp
    | some n =>
        simp
        tauto
  · have hlisted := congrArg (List.filter (Option.any keep)) (map_addresses includeSelf tree)
    rw [List.filter_map, List.filter_map] at hlisted
    exact hlisted.symm
  · intro source h address n hn
    rw [descendants_false]
    exact (walk_pairwise_start_lt h hn).filter _

/-- An empty section at the start, and an element that closes itself inside another. -/
theorem descendants_in_order_empty_section :
    ∃ source tree,
      source = "<![CDATA[]]><a>x<b/></a>".toList ∧
      parse source = .ok tree ∧
      (tree.descendants isElement false).map start = [12, 16] ∧
      ∀ address n, tree.at? address = some n →
        (n.descendants isText false).Pairwise (fun c d => c.start < d.start) := by
  have hparse : parse "<![CDATA[]]><a>x<b/></a>".toList =
      .ok (.document 24
        [.text 9 9 [],
          .element ⟨['a'], [], 12, 15, some 20, 24, false⟩
            [.text 15 16 ['x'], .element ⟨['b'], [], 16, 20, none, 20, true⟩ []]]) := by
    with_unfolding_all rfl
  refine ⟨_, _, rfl, hparse, ?_, (descendants_in_order _ isText false).2.2 _ hparse⟩
  rw [(descendants_in_order _ isElement false).1]
  simp only [children, preorderAll_cons, preorderAll_nil, Bool.false_eq_true, if_false]
  rfl

end Node
end Markup
end NuspecLint
