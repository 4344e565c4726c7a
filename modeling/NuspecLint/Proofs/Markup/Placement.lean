import NuspecLint.Proofs.Markup.Preorder

/-!
# Spans of the nodes of a tree

What it means for the nodes of a tree to stand where they should in the text that they come
from, and what the spans then say about the tree.

**Conditions.**  Each condition is about one node and its direct children: a text holds the
characters of its span, the tags of an element enclose its content, and the children of an
element follow one another inside that content.

**Results.**
* `Node.inside_of_mem_preorderAll`: what holds of the children of a node holds of everything
  below it.
* `Node.pairwise_start_lt`: in document order the nodes start further and further on, so that
  a node is known by its start.
* `Node.mem_beneath_iff`: a node is below an element exactly if its span is inside the
  element's.
-/

namespace NuspecLint
namespace Markup

/-- Offset at which the content of an element ends: at its end tag, if it has one. -/
def Element.contentEnd (e : Element) : Nat :=
  e.endTagStart.getD e.stop

namespace Node

/-- The node starts in `[lo, hi)` and ends at `hi` or before. -/
structure Inside (lo hi : Nat) (n : Node) : Prop where
  lo_le : lo ≤ n.start
  start_lt : n.start < hi
  stop_le : n.stop ≤ hi

/-- The node `c` ends before `d` starts; two texts do not even touch. -/
structure Before (c d : Node) : Prop where
  stop_le_start : c.stop ≤ d.start
  start_lt_start : c.start < d.start
  stop_lt_stop : c.stop < d.stop
  stop_lt_start : c.isText = true → d.isText = true → c.stop < d.start

/-- The nodes follow one another in `[lo, hi)`. -/
structure Row (lo hi : Nat) (nodes : List Node) : Prop where
  inside : ∀ n ∈ nodes, n.Inside lo hi
  ordered : nodes.Pairwise Before

/-- The tags of an element are in order, and enclose the nodes it holds. -/
structure Enclosed (e : Element) (nodes : List Node) : Prop where
  start_lt : e.start < e.startTagEnd
  startTagEnd_le : e.startTagEnd ≤ e.contentEnd
  contentEnd_le : e.contentEnd ≤ e.stop
  contentEnd_lt : ∀ q, e.endTagStart = some q → q < e.stop
  selfClosing : e.selfClosing = true →
    nodes = [] ∧ e.endTagStart = none ∧ e.stop = e.startTagEnd
  row : Row e.startTagEnd e.contentEnd nodes

/-- The node stands where it should in `source`, below the document. -/
def Placed (source : List Char) : Node → Prop
  | document .. => False
  | element e nodes => e.stop ≤ source.length ∧ Enclosed e nodes
  | text start stop value =>
      start ≤ stop ∧ stop ≤ source.length ∧ value = source.extract start stop

/-- All nodes of some trees stand where they should. -/
def PlacedAll (source : List Char) (nodes : List Node) : Prop :=
  ∀ n ∈ preorderAll nodes, n.Placed source

section Placed

variable {source : List Char}

@[simp] theorem placedAll_nil :
    PlacedAll source [] := by
  simp [PlacedAll]

@[simp] theorem placedAll_cons
    {n : Node} {nodes : List Node} :
    PlacedAll source (n :: nodes) ↔
      n.Placed source ∧ PlacedAll source n.children ∧ PlacedAll source nodes := by
  simp [PlacedAll, or_imp, forall_and]

theorem PlacedAll.beneath
    {n : Node} {nodes : List Node}
    (h : PlacedAll source nodes)
    (hn : n ∈ preorderAll nodes) :
    PlacedAll source n.children := by
  intro m hm
  exact h m (mem_preorderAll_of_beneath hn hm)

theorem Placed.start_le_stop
    {n : Node}
    (h : n.Placed source) :
    n.start ≤ n.stop := by
  cases n with
  | document length nodes =>
      exact False.elim h
  | element e nodes =>
      obtain ⟨_, he⟩ := h
      have h₁ := he.start_lt
      have h₂ := he.startTagEnd_le
      have h₃ := he.contentEnd_le
      simp only [start, stop]
      omega
  | text start stop value =>
      exact h.1

theorem Placed.stop_le_length
    {n : Node}
    (h : n.Placed source) :
    n.stop ≤ source.length := by
  cases n with
  | document length nodes =>
      exact False.elim h
  | element e nodes =>
      exact h.1
  | text start stop value =>
      exact h.2.1

/-- The children of a node start after it and end no later. -/
theorem Placed.child_inside
    {n c : Node}
    (h : n.Placed source)
    (hc : c ∈ n.children) :
    c.Inside (n.start + 1) n.stop := by
  cases n with
  | document length nodes =>
      exact False.elim h
  | text start stop value =>
      simp [children] at hc
  | element e nodes =>
      obtain ⟨_, he⟩ := h
      have hin := he.row.inside c hc
      have h₁ := he.start_lt
      have h₂ := he.contentEnd_le
      have h₃ := hin.lo_le
      have h₄ := hin.start_lt
      have h₅ := hin.stop_le
      constructor
      · change e.start + 1 ≤ c.start
        omega
      · change c.start < e.stop
        omega
      · change c.stop ≤ e.stop
        omega

theorem Placed.children_ordered
    {n : Node}
    (h : n.Placed source) :
    n.children.Pairwise Before := by
  cases n with
  | document length nodes =>
      exact False.elim h
  | element e nodes =>
      exact h.2.row.ordered
  | text start stop value =>
      simp [children]

/-- What is inside a span stays inside it with everything below. -/
theorem inside_of_mem_preorderAll
    {lo hi : Nat} {nodes : List Node} {n : Node}
    (hplaced : PlacedAll source nodes)
    (hin : ∀ c ∈ nodes, c.Inside lo hi)
    (hn : n ∈ preorderAll nodes) :
    n.Inside lo hi := by
  induction nodes using forest_induction generalizing lo hi with
  | nil =>
      simp at hn
  | cons d nodes ihBeneath ihAfter =>
      obtain ⟨hd, hbeneath, hafter⟩ := placedAll_cons.mp hplaced
      simp only [preorderAll_cons, List.mem_cons, List.mem_append] at hn
      rcases hn with rfl | hn | hn
      · exact hin n (by simp)
      · have h := ihBeneath hbeneath (fun c hc => hd.child_inside hc) hn
        have hout := hin d (by simp)
        have h₁ := h.lo_le
        have h₂ := h.start_lt
        have h₃ := h.stop_le
        have h₄ := hout.lo_le
        have h₅ := hout.stop_le
        exact ⟨by omega, by omega, by omega⟩
      · exact ihAfter hafter (fun c hc => hin c (by simp [hc])) hn

/-- Everything below a node starts after it and ends no later. -/
theorem inside_of_beneath
    {m n : Node}
    (hm : m.Placed source)
    (hplaced : PlacedAll source m.children)
    (hn : n ∈ preorderAll m.children) :
    n.Inside (m.start + 1) m.stop :=
  inside_of_mem_preorderAll hplaced (fun _ hc => hm.child_inside hc) hn

/-- The relation of two siblings, carried over to what is below them. -/
theorem before_of_mem_subtrees
    {c d m n : Node}
    (hcd : Before c d)
    (hc : PlacedAll source [c])
    (hd : PlacedAll source [d])
    (hm : m ∈ preorderAll [c])
    (hn : n ∈ preorderAll [d]) :
    m.stop ≤ n.start ∧ m.start < n.start ∧ m.stop < n.stop := by
  simp only [placedAll_cons, placedAll_nil, and_true] at hc hd
  simp only [preorderAll_cons, preorderAll_nil, List.append_nil, List.mem_cons] at hm hn
  have hmc : c.start ≤ m.start ∧ m.stop ≤ c.stop ∧ (m = c ∨ m.start < c.stop) := by
    rcases hm with rfl | hm
    · exact ⟨Nat.le_refl _, Nat.le_refl _, Or.inl rfl⟩
    · have h := inside_of_beneath hc.1 hc.2 hm
      have h₁ := h.lo_le
      exact ⟨by omega, h.stop_le, Or.inr h.start_lt⟩
  have hnd : d.start ≤ n.start ∧ (n = d ∨ d.start < n.stop) := by
    rcases hn with rfl | hn
    · exact ⟨Nat.le_refl _, Or.inl rfl⟩
    · have h := inside_of_beneath hd.1 hd.2 hn
      have hle := (hd.2 n hn).start_le_stop
      have h₁ := h.lo_le
      exact ⟨by omega, Or.inr (by omega)⟩
  have h₁ := hcd.stop_le_start
  have h₂ := hcd.start_lt_start
  have h₃ := hcd.stop_lt_stop
  obtain ⟨_, hms, hm'⟩ := hmc
  obtain ⟨hns, hn'⟩ := hnd
  refine ⟨by omega, ?_, ?_⟩
  · rcases hm' with rfl | hm'
    · omega
    · omega
  · rcases hn' with rfl | hn'
    · omega
    · omega

/-- The first of several trees ends before everything in the later ones. -/
theorem before_of_mem_preorderAll
    {c m n : Node} {nodes : List Node}
    (hplaced : PlacedAll source (c :: nodes))
    (hordered : (c :: nodes).Pairwise Before)
    (hm : m ∈ preorderAll [c])
    (hn : n ∈ preorderAll nodes) :
    m.stop ≤ n.start ∧ m.start < n.start ∧ m.stop < n.stop := by
  have hc : PlacedAll source [c] := by
    simp only [placedAll_cons, placedAll_nil, and_true] at hplaced ⊢
    exact ⟨hplaced.1, hplaced.2.1⟩
  have hbefore : ∀ d ∈ nodes, Before c d := (List.pairwise_cons.mp hordered).1
  have hafter : PlacedAll source nodes := (placedAll_cons.mp hplaced).2.2
  clear hordered hplaced
  induction nodes with
  | nil =>
      simp at hn
  | cons d nodes ih =>
      obtain ⟨hd, hdBeneath, hrest⟩ := placedAll_cons.mp hafter
      simp only [preorderAll_cons, List.mem_cons, List.mem_append] at hn
      have hsplit : n ∈ preorderAll [d] ∨ n ∈ preorderAll nodes := by
        simp only [preorderAll_cons, preorderAll_nil, List.append_nil, List.mem_cons]
        tauto
      rcases hsplit with hn | hn
      · have hdPlaced : PlacedAll source [d] := by
          simp [hd, hdBeneath]
        exact before_of_mem_subtrees (hbefore d (by simp)) hc hdPlaced hm hn
      · exact ih hn (fun e he => hbefore e (by simp [he])) hrest

/-- In document order the nodes start further and further on. -/
theorem pairwise_start_lt
    {nodes : List Node}
    (hplaced : PlacedAll source nodes)
    (hordered : nodes.Pairwise Before) :
    (preorderAll nodes).Pairwise (fun m n => m.start < n.start) := by
  induction nodes using forest_induction with
  | nil =>
      simp
  | cons d nodes ihBeneath ihAfter =>
      obtain ⟨hd, hbeneath, hafter⟩ := placedAll_cons.mp hplaced
      have hlater : ∀ m ∈ preorderAll [d], ∀ n ∈ preorderAll nodes, m.start < n.start := by
        intro m hm n hn
        exact (before_of_mem_preorderAll hplaced hordered hm hn).2.1
      simp only [preorderAll_cons, List.pairwise_cons, List.pairwise_append, List.mem_append]
      refine ⟨?_, ihBeneath hbeneath hd.children_ordered,
        ihAfter hafter (List.pairwise_cons.mp hordered).2, ?_⟩
      · rintro n (hn | hn)
        · have h := (inside_of_beneath hd hbeneath hn).lo_le
          omega
        · exact hlater d (by simp) n hn
      · intro m hm n hn
        exact hlater m (by simp [hm]) n hn

/-- A node inside the span of another is below it. -/
theorem mem_beneath_of_inside
    {m n : Node} {nodes : List Node}
    (hplaced : PlacedAll source nodes)
    (hordered : nodes.Pairwise Before)
    (hm : m ∈ preorderAll nodes)
    (hn : n ∈ preorderAll nodes)
    (hstart : m.start < n.start)
    (hstop : n.stop ≤ m.stop) :
    n ∈ preorderAll m.children := by
  induction nodes using forest_induction with
  | nil =>
      simp at hm
  | cons d nodes ihBeneath ihAfter =>
      obtain ⟨hd, hbeneath, hafter⟩ := placedAll_cons.mp hplaced
      have hsplit : ∀ k ∈ preorderAll (d :: nodes),
          k ∈ preorderAll [d] ∨ k ∈ preorderAll nodes := by
        intro k hk
        simp only [preorderAll_cons, preorderAll_nil, List.append_nil, List.mem_cons,
          List.mem_append] at hk ⊢
        tauto
      have hlater := @before_of_mem_preorderAll source d
      rcases hsplit m hm with hm | hm
      · rcases hsplit n hn with hn | hn
        · simp only [preorderAll_cons, preorderAll_nil, List.append_nil, List.mem_cons] at hm hn
          rcases hm with rfl | hm
          · rcases hn with rfl | hn
            · omega
            · exact hn
          · rcases hn with rfl | hn
            · have h := (inside_of_beneath hd hbeneath hm).lo_le
              omega
            · exact ihBeneath hbeneath hd.children_ordered hm hn
        · have h := hlater hplaced hordered hm hn
          omega
      · rcases hsplit n hn with hn | hn
        · have h := hlater hplaced hordered hn hm
          omega
        · exact ihAfter hafter (List.pairwise_cons.mp hordered).2 hm hn

/-- A node is below another exactly if its span is inside the other's. -/
theorem mem_beneath_iff
    {m n : Node} {nodes : List Node}
    (hplaced : PlacedAll source nodes)
    (hordered : nodes.Pairwise Before)
    (hm : m ∈ preorderAll nodes)
    (hn : n ∈ preorderAll nodes) :
    n ∈ preorderAll m.children ↔
      m.start < n.start ∧ n.stop ≤ m.stop := by
  constructor
  · intro h
    have hin := inside_of_beneath (hplaced m hm) (hplaced.beneath hm) h
    have h₁ := hin.lo_le
    exact ⟨by omega, hin.stop_le⟩
  · rintro ⟨hstart, hstop⟩
    exact mem_beneath_of_inside hplaced hordered hm hn hstart hstop

/-- Two nodes that start at the same offset are one. -/
theorem eq_of_start_eq
    {m n : Node} {nodes : List Node}
    (hplaced : PlacedAll source nodes)
    (hordered : nodes.Pairwise Before)
    (hm : m ∈ preorderAll nodes)
    (hn : n ∈ preorderAll nodes)
    (hstart : m.start = n.start) :
    m = n := by
  have hnodup : ((preorderAll nodes).map start).Nodup :=
    List.pairwise_map.mpr ((pairwise_start_lt hplaced hordered).imp Nat.ne_of_lt)
  exact List.inj_on_of_nodup_map hnodup hm hn hstart

end Placed

end Node
end Markup
end NuspecLint
