import NuspecLint.Proofs.Markup.Laminar

/-!
# Texts of a parsed document

What a document tree lists below a node, said by offsets of the text alone.

**Results.**
* `Node.forest_of_parse`: everything below a parsed document stands in order in the text.
* `Node.texts_apart_of_parse`: the texts of a parsed document follow one another.
* `Node.head?_filter_of_first`: of the nodes with a property, the one that starts first is listed
  first.
* `Node.contentValue_eq_slices`: the content of an element is what the text holds where the texts
  inside the span of the element stand, in the order of their offsets.
-/

namespace NuspecLint
namespace Markup
namespace Node

variable {source : List Char} {tree : Node}

/-- A parsed document, and what is below it. -/
theorem forest_of_parse
    (h : parse source = .ok tree) :
    ∃ nodes,
      tree = .document source.length nodes ∧ tree.nodes = tree :: preorderAll nodes ∧
      PlacedAll source nodes ∧ nodes.Pairwise Before := by
  obtain ⟨newest, rfl, hlevel⟩ := level_of_parse h
  refine ⟨newest.reverse, rfl, ?_, hlevel.placed_reverse, hlevel.row.ordered⟩
  rw [nodes_eq_cons, beneath_eq_preorderAll, children]

/-- The elements and texts of a document are below it. -/
theorem mem_preorderAll_of_mem_nodes
    {length : Nat} {nodes : List Node} {n : Node}
    (hn : n ∈ (document length nodes).nodes)
    (hkind : n.isElement = true ∨ n.isText = true) :
    n ∈ preorderAll nodes := by
  rw [nodes_eq_cons, beneath_eq_preorderAll] at hn
  rcases List.mem_cons.mp hn with rfl | hn
  · simp [isElement, isText] at hkind
  · exact hn

/-- What a walk from a node finds, itself included. -/
theorem descendants_true (keep : Node → Bool) (n : Node) :
    n.descendants keep true = n.nodes.filter keep := by
  simp [nodes, descendants]

/-- What a walk from a node finds, itself left out. -/
theorem descendants_false (keep : Node → Bool) (n : Node) :
    n.descendants keep false = (preorderAll n.children).filter keep := by
  simp [descendants, walk_eq_preorderAll]

/-- In document order, a text ends before the next node starts. -/
theorem pairwise_text_stop_le
    {nodes : List Node}
    (hplaced : PlacedAll source nodes)
    (hordered : nodes.Pairwise Before) :
    (preorderAll nodes).Pairwise (fun m n => m.isText = true → m.stop ≤ n.start) := by
  induction nodes using forest_induction with
  | nil =>
      simp
  | cons d nodes ihBeneath ihAfter =>
      obtain ⟨hd, hbeneath, hafter⟩ := placedAll_cons.mp hplaced
      have hlater : ∀ m ∈ preorderAll [d], ∀ n ∈ preorderAll nodes, m.stop ≤ n.start := by
        intro m hm n hn
        exact (before_of_mem_preorderAll hplaced hordered hm hn).1
      simp only [preorderAll_cons, List.pairwise_cons, List.pairwise_append, List.mem_append]
      refine ⟨?_, ihBeneath hbeneath hd.children_ordered,
        ihAfter hafter (List.pairwise_cons.mp hordered).2, ?_⟩
      · rintro n (hn | hn) htext
        · -- Nothing is below a text.
          cases d with
          | document | element =>
              cases htext
          | text =>
              simp [children] at hn
        · exact hlater d (by simp) n hn
      · intro m hm n hn _
        exact hlater m (by simp [hm]) n hn

/-- The texts of a parsed document follow one another. -/
theorem texts_apart_of_parse
    (h : parse source = .ok tree) :
    (tree.nodes.filter isText).Pairwise
      (fun m n => m.start < n.start ∧ m.stop ≤ n.start) := by
  obtain ⟨nodes, rfl, hnodes, hplaced, hordered⟩ := forest_of_parse h
  rw [hnodes, List.filter_cons_of_neg (by simp [isText])]
  have hboth := (pairwise_start_lt hplaced hordered).and (pairwise_text_stop_le hplaced hordered)
  refine (hboth.filter isText).imp_of_mem ?_
  rintro m n hm - ⟨hlt, hstop⟩
  exact ⟨hlt, hstop (List.of_mem_filter hm)⟩

/-- The content of a node lies in the text. -/
theorem Placed.contentSpan_within
    {n : Node}
    (h : n.Placed source) :
    n.contentSpan.1 ≤ n.contentSpan.2 ∧ n.contentSpan.2 ≤ source.length := by
  have hle := h.start_le_stop
  have hlength := h.stop_le_length
  cases n with
  | document | text =>
      exact ⟨hle, hlength⟩
  | element e nodes =>
      have htags := h.2.startTagEnd_le
      have hend := h.2.contentEnd_le
      rw [contentSpan]
      split
      · exact ⟨hle, hlength⟩
      · exact ⟨htags, hend.trans hlength⟩

/-- Of the nodes with a property, the one that starts first is listed first. -/
theorem head?_filter_of_first
    {keep : Node → Bool} {e : Node} {nodes : List Node}
    (hordered : nodes.Pairwise (fun m n => m.start < n.start))
    (he : e ∈ nodes)
    (hkeep : keep e = true)
    (hfirst : ∀ n ∈ nodes, keep n = true → e.start ≤ n.start) :
    (nodes.filter keep).head? = some e := by
  have hmem : e ∈ nodes.filter keep := List.mem_filter.mpr ⟨he, hkeep⟩
  have hfiltered := hordered.filter keep
  cases hlist : nodes.filter keep with
  | nil =>
      rw [hlist] at hmem
      cases hmem
  | cons d rest =>
      rw [hlist] at hmem hfiltered
      obtain ⟨hd, hdKeep⟩ := List.mem_filter.mp (hlist ▸ List.mem_cons_self : d ∈ nodes.filter keep)
      rcases List.mem_cons.mp hmem with rfl | hrest
      · rfl
      · have hlt := (List.pairwise_cons.mp hfiltered).1 e hrest
        have hle := hfirst d hd hdKeep
        omega

/-- The texts of a tree that stand inside the span of a node, in the order of their offsets. -/
def textsWithin (tree e : Node) : List Node :=
  (tree.nodes.filter fun t =>
    t.isText && decide (e.start < t.start) && decide (t.stop ≤ e.stop)).mergeSort
      fun s t => decide (s.start ≤ t.start)

/-- What `source` holds where some nodes stand. -/
def slices (source : List Char) (nodes : List Node) : List Char :=
  nodes.flatMap fun n => source.extract n.start n.stop

/-- The texts inside the span of an element are those below it. -/
theorem textsWithin_eq_descendants
    {e : Node}
    (h : parse source = .ok tree)
    (he : e ∈ tree.nodes)
    (helement : e.isElement = true) :
    tree.textsWithin e = e.descendants isText false := by
  obtain ⟨nodes, rfl, hnodes, hplaced, hordered⟩ := forest_of_parse h
  have he := mem_preorderAll_of_mem_nodes he (Or.inl helement)
  have hstarts := pairwise_start_lt hplaced hordered
  have hbeneath :=
    (pairwise_start_lt (hplaced.beneath he) (hplaced e he).children_ordered).filter isText
  rw [textsWithin, hnodes, List.filter_cons_of_neg (by simp [isText]), descendants_false]
  have hwithin := hstarts.filter fun t =>
    t.isText && decide (e.start < t.start) && decide (t.stop ≤ e.stop)
  rw [List.mergeSort_of_pairwise (hwithin.imp fun hlt => decide_eq_true (Nat.le_of_lt hlt))]
  have hnodup : ∀ {l : List Node}, l.Pairwise (fun m n => m.start < n.start) → l.Nodup := by
    intro l hl
    refine hl.imp ?_
    rintro m n hlt rfl
    omega
  refine List.Perm.eq_of_pairwise (fun m n _ _ hmn hnm => by omega) hwithin hbeneath
    ((List.perm_ext_iff_of_nodup (hnodup hwithin) (hnodup hbeneath)).mpr ?_)
  intro t
  simp only [List.mem_filter, Bool.and_eq_true, decide_eq_true_eq]
  constructor
  · rintro ⟨ht, ⟨htext, hstart⟩, hstop⟩
    exact ⟨mem_beneath_of_inside hplaced hordered he ht hstart hstop, htext⟩
  · rintro ⟨ht, htext⟩
    have hmem := mem_preorderAll_of_beneath he ht
    obtain ⟨hstart, hstop⟩ := (mem_beneath_iff hplaced hordered he hmem).mp ht
    exact ⟨hmem, ⟨htext, hstart⟩, hstop⟩

/-- The content of an element is what the text holds where the texts inside its span stand. -/
theorem contentValue_eq_slices
    {e : Node}
    (h : parse source = .ok tree)
    (he : e ∈ tree.nodes)
    (helement : e.isElement = true) :
    e.contentValue = slices source (tree.textsWithin e) := by
  rw [textsWithin_eq_descendants h he helement, contentValue, slices]
  obtain ⟨nodes, rfl, _, hplaced, _⟩ := forest_of_parse h
  have he := mem_preorderAll_of_mem_nodes he (Or.inl helement)
  apply List.flatMap_congr
  intro t ht
  rw [descendants_false] at ht
  obtain ⟨ht, htext⟩ := List.mem_filter.mp ht
  have hplacedText := hplaced.beneath he t ht
  cases t with
  | document | element =>
      cases htext
  | text start stop value =>
      exact hplacedText.2.2

end Node
end Markup
end NuspecLint
