import NuspecLint.Proofs.Markup.Comment
import NuspecLint.Proofs.Markup.Draft

/-!
# The right spine of a tree under construction

What holds of the tree and of the stack before every turn of the loop that builds a tree in place.

**Invariant.**  The stack begins with the document, and every further entry is an open element and
the last child of the one before it.  Nothing off the stack ends behind the place the loop has come
to, and nothing off the stack changes any more, except that plain text at the end of the innermost
open element may still grow.

**Argument.**  A turn changes the nodes on the stack only, and of the nodes below them only a text
that ends where the turn begins.  A node that is neither is not on the way to any change.

**Results.**
* `Draft.change_of_take`: what a turn can do to a tree and its stack.
* `Draft.Settled.change` and `Draft.Change.keepsHeadings`: what stays as it is in a turn, and so
  from then on, `Scan.Run.settled` and `Scan.Run.keepsHeadings`.
* `Spine.isChain_stack` and `Spine.FitsAt.at?_plug_cases`: what is on the stack, and what has ended.
* `loop_builds_right_spine`: the invariant, and that the loop comes to an end.
-/

namespace NuspecLint
namespace Markup

open Node

section Changes

namespace Node

/-- The one address leads to the last child of the node at the other. -/
def IsLastChild (tree : Node) (outer inner : List Nat) : Prop :=
  ∃ parent last,
    tree.at? outer = some parent ∧ parent.children.length = last + 1 ∧ inner = outer ++ [last]

/-- What is known of an element from its start tag; other nodes have none. -/
def heading? (n : Node) : Option Heading :=
  n.element?.map Element.heading

/-- Every node of the one tree is in the other at its address, with the same heading. -/
def KeepsHeadings (tree after : Node) : Prop :=
  ∀ address n, tree.at? address = some n →
    ∃ m, after.at? address = some m ∧ m.heading? = n.heading?

variable {tree n m : Node} {a b : List Nat}

theorem KeepsHeadings.trans
    {mid after : Node}
    (h : tree.KeepsHeadings mid)
    (h' : mid.KeepsHeadings after) :
    tree.KeepsHeadings after := by
  intro address n hn
  obtain ⟨m, hm, hmn⟩ := h address n hn
  obtain ⟨k, hk, hkm⟩ := h' address m hm
  exact ⟨k, hk, hkm.trans hmn⟩

/-- A change of one node that keeps headings keeps those of the whole tree. -/
theorem keepsHeadings_modifyAt
    {f : Node → Node}
    (hf : ∀ parent, tree.at? b = some parent → parent.KeepsHeadings (f parent)) :
    tree.KeepsHeadings (tree.modifyAt f b) := by
  induction b generalizing tree with
  | nil =>
      exact hf tree rfl
  | cons i b ih =>
      intro address n hn
      cases address with
      | nil =>
          cases hn
          exact ⟨_, rfl, by cases tree <;> rfl⟩
      | cons j address =>
          obtain ⟨c, hc, hcn⟩ := Option.bind_eq_some_iff.mp hn
          rw [at?_modifyAt_cons, hc, Option.bind_some]
          by_cases hij : i = j
          · subst hij
            rw [if_pos rfl]
            refine ih (fun parent hparent => hf parent ?_) address n hcn
            simp [at?_cons, hc, hparent]
          · exact ⟨n, by rw [if_neg hij]; exact hcn, rfl⟩

theorem keepsHeadings_withElement
    {f : Element → Element}
    (hf : ∀ e, (f e).heading = e.heading) :
    n.KeepsHeadings (n.withElement f) := by
  intro address m hm
  cases address with
  | nil =>
      cases hm
      exact ⟨_, rfl, by cases n <;> simp [withElement, heading?, element?, hf]⟩
  | cons i address =>
      exact ⟨m, by rw [at?_cons, children_withElement]; exact hm, rfl⟩

theorem at?_withElement
    {f : Element → Element} {rest : List Nat}
    (hm : n.at? rest = some m)
    (hrest : rest ≠ []) :
    (n.withElement f).at? rest = some m := by
  obtain ⟨i, rest, rfl⟩ := List.exists_cons_of_ne_nil hrest
  rw [at?_cons, children_withElement]
  exact hm

/-- A new child changes nothing below the others. -/
theorem at?_append_child
    {child : Node} {rest : List Nat}
    (hm : n.at? rest = some m)
    (hrest : rest ≠ []) :
    (n.append child).at? rest = some m := by
  obtain ⟨i, rest, rfl⟩ := List.exists_cons_of_ne_nil hrest
  obtain ⟨c, hc, hcm⟩ := Option.bind_eq_some_iff.mp hm
  have hlt := (List.getElem?_eq_some_iff.mp hc).1
  have hne : n.children ≠ [] := List.ne_nil_of_length_pos (Nat.zero_lt_of_lt hlt)
  rw [at?_cons, append, children_withChildren hne, List.getElem?_append_left hlt, hc]
  exact hcm

theorem keepsHeadings_append (child n : Node) :
    n.KeepsHeadings (n.append child) := by
  intro address m hm
  cases address with
  | nil =>
      cases hm
      exact ⟨_, rfl, by cases n <;> rfl⟩
  | cons i address =>
      exact ⟨m, at?_append_child hm (by simp), rfl⟩

/-- A text that grows changes nothing below the other children. -/
theorem at?_grown
    {front : List Node} {first stop stop' : Nat} {value value' : List Char} {i : Nat}
    {rest : List Nat}
    (hchildren : n.children = front ++ [.text first stop value])
    (hm : n.at? (i :: rest) = some m) :
    (i = front.length ∧ rest = [] ∧ m = .text first stop value) ∨
    (n.withChildren fun _ => front ++ [.text first stop' value']).at? (i :: rest) = some m := by
  obtain ⟨c, hc, hcm⟩ := Option.bind_eq_some_iff.mp hm
  rw [hchildren] at hc
  rcases Nat.lt_trichotomy i front.length with hlt | rfl | hgt
  · right
    rw [List.getElem?_append_left hlt] at hc
    rw [at?_cons, children_withChildren (by simp [hchildren]), List.getElem?_append_left hlt, hc]
    exact hcm
  · left
    rw [List.getElem?_concat_length] at hc
    cases hc
    cases rest with
    | nil =>
        exact ⟨rfl, rfl, (Option.some.inj hcm).symm⟩
    | cons j rest =>
        simp [at?_cons, children] at hcm
  · rw [List.getElem?_eq_none (by simp; omega)] at hc
    cases hc

theorem keepsHeadings_grown
    {front : List Node} {first stop stop' : Nat} {value value' : List Char}
    (hchildren : n.children = front ++ [.text first stop value]) :
    n.KeepsHeadings (n.withChildren fun _ => front ++ [.text first stop' value']) := by
  intro address m hm
  cases address with
  | nil =>
      cases hm
      exact ⟨_, rfl, by cases n <;> rfl⟩
  | cons i address =>
      rcases at?_grown hchildren hm with ⟨rfl, rfl, rfl⟩ | hsame
      · refine ⟨.text first stop' value', ?_, rfl⟩
        rw [at?_cons, children_withChildren (by simp [hchildren]), List.getElem?_concat_length]
        rfl
      · exact ⟨m, hsame, rfl⟩

theorem keepsHeadings_endAt (stop : Nat) (addresses : List (List Nat)) (tree : Node) :
    tree.KeepsHeadings (tree.endAt stop addresses) := by
  induction addresses with
  | nil =>
      intro address n hn
      exact ⟨n, hn, rfl⟩
  | cons address addresses ih =>
      exact ih.trans
        (keepsHeadings_modifyAt fun parent _ => keepsHeadings_withElement fun e => rfl)

theorem at?_modifyAt_withElement
    {f : Element → Element}
    (hm : tree.at? a = some m)
    (hab : ¬ a <+: b) :
    (tree.modifyAt (withElement f) b).at? a = some m := by
  refine at?_modifyAt_of_not_prefix hm hab ?_
  rintro parent rest _ rfl hrest
  refine at?_withElement hrest ?_
  rintro rfl
  simp at hab

theorem at?_endAt
    {stop : Nat} {addresses : List (List Nat)}
    (hm : tree.at? a = some m)
    (hoff : ∀ b ∈ addresses, ¬ a <+: b) :
    (tree.endAt stop addresses).at? a = some m := by
  induction addresses with
  | nil =>
      exact hm
  | cons b addresses ih =>
      obtain ⟨hb, hlater⟩ := List.forall_mem_cons.mp hoff
      exact at?_modifyAt_withElement (ih hlater) hb

end Node

namespace Draft

/-- The text at the address may still grow: it ends here, last in the innermost open element. -/
def Growing (d : Draft) (address : List Nat) (n : Node) : Prop :=
  n.isText = true ∧ n.stop = d.pos ∧
  ∃ top, d.stack.getLast? = some top ∧ d.tree.IsLastChild top address

/-- What a piece can do to a tree under construction and its stack. -/
inductive Change (d after : Draft) : Prop
  | idle
      (htree : after.tree = d.tree)
      (hstack : after.stack = d.stack)
  | adds
      (top : List Nat)
      (parent child : Node)
      (htop : d.stack.getLast? = some top)
      (hparent : d.tree.at? top = some parent)
      (htree : after.tree = d.tree.modifyAt (·.append child) top)
      (hstack : ∀ address ∈ after.stack,
        address ∈ d.stack ∨ address = top ++ [parent.children.length])
  | grows
      (top : List Nat)
      (parent : Node)
      (front : List Node)
      (first stop : Nat)
      (value longer : List Char)
      (htop : d.stack.getLast? = some top)
      (hparent : d.tree.at? top = some parent)
      (hchildren : parent.children = front ++ [.text first d.pos value])
      (htree : after.tree =
        d.tree.modifyAt (withChildren fun _ => front ++ [.text first stop longer]) top)
      (hstack : after.stack = d.stack)
  | ends
      (addresses : List (List Nat))
      (target : List Nat)
      (start stop : Nat)
      (htarget : ∀ address ∈ target :: addresses, address ∈ d.stack)
      (htree : after.tree = (d.tree.endAt start addresses).modifyAt
        (withElement fun e => { e with endTagStart := some start, stop := stop }) target)
      (hstack : ∀ address ∈ after.stack, address ∈ d.stack)

variable {d after : Draft}

/-- Elements stay where they are, with the headings they have. -/
theorem Change.keepsHeadings
    (h : d.Change after) :
    d.tree.KeepsHeadings after.tree := by
  cases h with
  | idle htree _ =>
      rw [htree]
      exact fun address n hn => ⟨n, hn, rfl⟩
  | adds top parent child _ _ htree _ =>
      rw [htree]
      exact keepsHeadings_modifyAt fun n _ => keepsHeadings_append child n
  | grows top parent front first stop value longer _ hparent hchildren htree _ =>
      rw [htree]
      refine keepsHeadings_modifyAt fun n hn => ?_
      cases hparent.symm.trans hn
      exact keepsHeadings_grown hchildren
  | ends addresses target start stop _ htree _ =>
      rw [htree]
      exact (keepsHeadings_endAt start addresses d.tree).trans
        (keepsHeadings_modifyAt fun n _ => keepsHeadings_withElement fun e => rfl)

/-- The node on top of the stack is in the tree. -/
def HasTop (d : Draft) : Prop :=
  ∃ top parent, d.stack.getLast? = some top ∧ d.tree.at? top = some parent

section Take

variable {stop : Nat}

theorem change_of_append
    {child : Node}
    (hd : d.HasTop)
    (h : modifyTop (·.append child) { d with pos := stop } = some after) :
    d.Change after := by
  obtain ⟨top, parent, htop, hparent⟩ := hd
  simp only [modifyTop, htop, Option.map_some, Option.some.injEq] at h
  subst h
  exact Change.adds top parent child htop hparent rfl fun address haddress => Or.inl haddress

theorem change_of_run
    {run : List Char}
    (hd : d.HasTop)
    (h : modifyTop
      (withChildren fun nodes => (Spine.appendRun d.pos run nodes.reverse).reverse)
      { d with pos := stop } = some after) :
    d.Change after := by
  obtain ⟨top, parent, htop, hparent⟩ := hd
  simp only [modifyTop, htop, Option.map_some, Option.some.injEq] at h
  subst h
  rcases Spine.appendRun_cases d.pos run parent.children.reverse with
    ⟨first, value, rest, hnewest, heq⟩ | ⟨_, heq⟩
  · refine Change.grows top parent rest.reverse first (d.pos + run.length) value (value ++ run)
      htop hparent ?_ (modifyAt_congr hparent (withChildren_congr ?_)) rfl
    · rw [← List.reverse_cons, ← hnewest, List.reverse_reverse]
    · rw [heq, List.reverse_cons]
  · refine Change.adds top parent (.text d.pos (d.pos + run.length) run) htop hparent
      (modifyAt_congr hparent (withChildren_congr ?_)) fun address haddress => Or.inl haddress
    rw [heq, List.reverse_cons, List.reverse_reverse]

theorem change_of_push
    {element : Node}
    (hd : d.HasTop)
    (h : push element { d with pos := stop } = some after) :
    d.Change after := by
  obtain ⟨top, parent, htop, hparent⟩ := hd
  simp only [push, htop, hparent, Option.map_some, Option.getD_some, Option.some.injEq] at h
  subst h
  refine Change.adds top parent element htop hparent rfl fun address haddress => ?_
  simpa using haddress

theorem change_of_close
    {depth first last : Nat}
    (h : close depth first last { d with pos := stop } = some after) :
    d.Change after := by
  obtain ⟨target, htarget, rfl⟩ := Option.map_eq_some_iff.mp h
  refine Change.ends (d.stack.drop (d.stack.length - 1 - depth + 1)) target first last ?_ rfl ?_
  · exact List.forall_mem_cons.mpr
      ⟨List.mem_of_getElem? htarget, fun address haddress => List.mem_of_mem_drop haddress⟩
  · exact fun address haddress => List.mem_of_mem_take haddress

/-- **What taking in a piece does in place.** -/
theorem change_of_take
    {p : Piece}
    (hd : d.HasTop)
    (h : d.take p = some after) :
    d.Change after := by
  cases p with
  | skipped kind body =>
      cases h
      exact Change.idle rfl rfl
  | cdata content =>
      exact change_of_append hd h
  | text run =>
      exact change_of_run hd h
  | startTag tag =>
      simp only [take] at h
      split at h
      · exact change_of_append hd h
      · exact change_of_push hd h
  | endTag tag =>
      simp only [take] at h
      split at h
      · cases h
        exact Change.idle rfl rfl
      · exact change_of_close h

end Take

/-- A node that does not change any more. -/
structure Settled (d : Draft) (address : List Nat) (n : Node) : Prop where
  found : d.tree.at? address = some n
  off_stack : address ∉ d.stack
  stop_le : n.stop ≤ d.pos
  not_growing : ¬ d.Growing address n

/-- What has settled is still there, unchanged, after a further piece. -/
theorem Settled.at?_change
    {address : List Nat} {n : Node}
    (hn : d.Settled address n)
    (hclosed : ∀ b ∈ d.stack, ∀ a, a <+: b → a ∈ d.stack)
    (h : d.Change after) :
    after.tree.at? address = some n := by
  have haway : ∀ b ∈ d.stack, ¬ address <+: b :=
    fun b hb hprefix => hn.off_stack (hclosed b hb address hprefix)
  cases h with
  | idle htree _ =>
      rw [htree]
      exact hn.found
  | adds top parent child htop _ htree _ =>
      have htopMem := List.mem_of_getLast? htop
      rw [htree]
      refine at?_modifyAt_of_not_prefix hn.found (haway top htopMem) ?_
      rintro m rest _ rfl hrest
      refine at?_append_child hrest ?_
      rintro rfl
      exact hn.off_stack (by simpa using htopMem)
  | grows top parent front first stop value longer htop hparent hchildren htree _ =>
      have htopMem := List.mem_of_getLast? htop
      rw [htree]
      refine at?_modifyAt_of_not_prefix hn.found (haway top htopMem) ?_
      rintro m rest hm rfl hrest
      cases hparent.symm.trans hm
      cases rest with
      | nil =>
          exact absurd (by simpa using htopMem) hn.off_stack
      | cons i rest =>
          rcases at?_grown hchildren hrest with ⟨rfl, rfl, rfl⟩ | hsame
          · -- The node that is changed is the one that may grow.
            refine absurd ⟨rfl, rfl, top, htop, parent, front.length, hparent, ?_, rfl⟩
              hn.not_growing
            simp [hchildren]
          · exact hsame
  | ends addresses target start stop htarget htree _ =>
      obtain ⟨htargetMem, haddresses⟩ := List.forall_mem_cons.mp htarget
      rw [htree]
      exact at?_modifyAt_withElement
        (at?_endAt hn.found fun b hb => haway b (haddresses b hb)) (haway target htargetMem)

/-- What has settled is not put on the stack by a further piece. -/
theorem Settled.not_mem_stack
    {address : List Nat} {n : Node}
    (hn : d.Settled address n)
    (h : d.Change after) :
    address ∉ after.stack := by
  intro hmem
  cases h with
  | idle _ hstack =>
      exact hn.off_stack (hstack ▸ hmem)
  | adds top parent child _ hparent _ hstack =>
      rcases hstack address hmem with hold | rfl
      · exact hn.off_stack hold
      · -- The new element stands where no node has been.
        have hfound := hn.found
        rw [at?_append, hparent, Option.bind_some, at?_cons,
          List.getElem?_eq_none (Nat.le_refl _)] at hfound
        cases hfound
  | grows _ _ _ _ _ _ _ _ _ _ _ hstack =>
      exact hn.off_stack (hstack ▸ hmem)
  | ends _ _ _ _ _ _ hstack =>
      exact hn.off_stack (hstack address hmem)

theorem Settled.change
    {address : List Nat} {n : Node}
    (hn : d.Settled address n)
    (hclosed : ∀ b ∈ d.stack, ∀ a, a <+: b → a ∈ d.stack)
    (hpos : d.pos < after.pos)
    (h : d.Change after) :
    after.Settled address n := by
  have hstop := hn.stop_le
  refine ⟨hn.at?_change hclosed h, hn.not_mem_stack h, by omega, ?_⟩
  rintro ⟨_, hgrowing, _⟩
  omega

end Draft

end Changes

section Spine

/-- An open element that is the last child of the node at the other address. -/
def Node.LastOpen (tree : Node) (outer inner : List Nat) : Prop :=
  tree.IsLastChild outer inner ∧
  ∃ e nodes,
    tree.at? inner = some (.element e nodes) ∧ e.selfClosing = false ∧ e.endTagStart = none

namespace Spine

variable {source : List Char} {length limit : Nat} {s : Spine} {more : List Node}

/-- The way down to an open element leads through open elements only. -/
theorem mem_stack_of_prefix
    {a b : List Nat}
    (hb : b ∈ s.stack)
    (hab : a <+: b) :
    a ∈ s.stack := by
  obtain ⟨opened, newest⟩ := s
  induction opened generalizing a b with
  | nil =>
      cases List.mem_singleton.mp hb
      rw [List.prefix_nil.mp hab]
      exact hb
  | cons e outer ih =>
      rw [stack_eq_append, List.mem_append, List.mem_singleton] at hb ⊢
      rcases hb with hb | rfl
      · exact Or.inl (ih hab hb)
      · rw [address_cons] at hab ⊢
        rcases List.prefix_concat_iff.mp hab with rfl | hab
        · exact Or.inr rfl
        · exact Or.inl (ih hab (List.mem_of_getLast? (getLast?_stack ⟨outer, newest⟩)))

/-- Every open element is the last child of the node before it on the stack. -/
theorem isChain_stack :
    s.stack.IsChain (s.plug length more).LastOpen := by
  obtain ⟨opened, newest⟩ := s
  induction opened generalizing more with
  | nil =>
      exact List.isChain_singleton _
  | cons e outer ih =>
      rw [stack_eq_append, List.isChain_append]
      refine ⟨ih, List.isChain_singleton _, ?_⟩
      intro around haround inner hinner
      cases Option.some.inj ((getLast?_stack ⟨outer, newest⟩).symm.trans haround)
      cases Option.some.inj hinner
      have hfound : (plug length ⟨e :: outer, newest⟩ more).at? (address ⟨outer, newest⟩) =
          some (top length ⟨outer, newest⟩ [e.node more]) := by
        rw [plug_cons, at?_plug_address]
      refine ⟨⟨_, (innermost ⟨outer, newest⟩).length, hfound, ?_, address_cons ..⟩, _, _,
        at?_plug_address, rfl, rfl⟩
      simp [children_top]

/-- What is in a child has ended, unless the child is one of those put behind the finished nodes. -/
theorem stop_le_of_getElem?
    {lo i : Nat} {q : List Nat} {newest : List Node} {c n : Node}
    (hlevel : Level source lo limit newest)
    (hc : (newest.reverse ++ more)[i]? = some c)
    (hn : c.at? q = some n) :
    n.stop ≤ limit ∨ ∃ j, i = newest.length + j ∧ more[j]? = some c := by
  rcases Nat.lt_or_ge i newest.length with hlt | hge
  · left
    rw [List.getElem?_append_left (by simpa using hlt)] at hc
    have hmem : c ∈ newest := List.mem_reverse.mp (List.mem_of_getElem? hc)
    obtain ⟨before, after, rfl⟩ := List.append_of_mem hmem
    refine (inside_of_mem_preorderAll hlevel.placed hlevel.inside ?_).stop_le
    have hbelow := mem_preorder_of_at? hn
    rw [preorder_eq_cons] at hbelow
    rw [preorderAll_append, preorderAll_cons, ← List.cons_append]
    exact List.mem_append_right _ (List.mem_append_left _ hbelow)
  · right
    obtain ⟨j, rfl⟩ := Nat.exists_eq_add_of_le hge
    rw [List.getElem?_append_right (by simp), List.length_reverse, Nat.add_sub_cancel_left] at hc
    exact ⟨j, rfl, hc⟩

/--
A node of the tree is open, or has ended, or is one of those put behind the nodes in the innermost
open element.
-/
theorem FitsAt.at?_plug_cases
    {address : List Nat} {n : Node}
    (h : s.FitsAt source limit)
    (hn : (s.plug length more).at? address = some n) :
    address ∈ s.stack ∨ n.stop ≤ limit ∨
    ∃ j q c, address = s.address ++ (s.innermost.length + j) :: q ∧
      more[j]? = some c ∧ c.at? q = some n := by
  obtain ⟨opened, newest⟩ := s
  unfold FitsAt at h
  simp only at h
  induction h generalizing more with
  | outermost hlevel =>
      cases address with
      | nil =>
          exact Or.inl (List.mem_singleton.mpr rfl)
      | cons i q =>
          obtain ⟨c, hc, hcn⟩ := Option.bind_eq_some_iff.mp hn
          rcases stop_le_of_getElem? hlevel hc hcn with hle | ⟨j, rfl, hj⟩
          · exact Or.inr (Or.inl hle)
          · exact Or.inr (Or.inr ⟨j, q, c, rfl, hj, hcn⟩)
  | @inner limit e outer newest hstart hlevel houter ih =>
      rw [stack_eq_append, List.mem_append, List.mem_singleton]
      rcases ih hn with hmem | hle | ⟨j, q, c, rfl, hj, hcn⟩
      · exact Or.inl (Or.inl hmem)
      · have hlimit := hlevel.lo_le_hi
        exact Or.inr (Or.inl (by omega))
      · obtain ⟨rfl, rfl⟩ : j = 0 ∧ e.node more = c := by
          simpa [List.getElem?_singleton] using hj
        have haddress := address_cons e outer newest
        cases q with
        | nil =>
            exact Or.inl (Or.inr haddress.symm)
        | cons i q =>
            obtain ⟨d, hd, hdn⟩ := Option.bind_eq_some_iff.mp hcn
            rcases stop_le_of_getElem? hlevel hd hdn with hle | ⟨j, rfl, hj⟩
            · exact Or.inr (Or.inl hle)
            · refine Or.inr (Or.inr ⟨j, q, d, ?_, hj, hdn⟩)
              rw [haddress, List.append_assoc]
              rfl

theorem marks_plug :
    (s.plug length more).marks = s.marks ++ marksAll more := by
  obtain ⟨opened, newest⟩ := s
  induction opened generalizing more with
  | nil =>
      simp [Node.marks, marks, marksWith]
  | cons e outer ih =>
      rw [plug_cons, ih]
      simp [marks, marksWith, OpenElement.node, Node.marks, Element.heading, OpenElement.heading]

theorem exists_plug_eq :
    ∃ nodes, s.plug length more = .document length nodes := by
  obtain ⟨opened, newest⟩ := s
  induction opened generalizing more with
  | nil =>
      exact ⟨_, rfl⟩
  | cons e outer ih =>
      exact ih

theorem head?_stack :
    s.stack.head? = some [] := by
  obtain ⟨opened, newest⟩ := s
  induction opened with
  | nil =>
      rfl
  | cons e outer ih =>
      rw [stack_eq_append, List.head?_append, ih]
      rfl

theorem hasTop_draft (length pos : Nat) (s : Spine) :
    (s.draft length pos).HasTop :=
  ⟨s.address, s.top length [], getLast?_stack s, at?_plug_address⟩

end Spine

/-- The start tags of a tree are those of its elements. -/
theorem Node.mem_marks_of_at?
    {tree : Node} {address : List Nat} {e : Element} {nodes : List Node}
    (h : tree.at? address = some (.element e nodes)) :
    .startTag e.heading ∈ tree.marks := by
  induction address generalizing tree with
  | nil =>
      cases h
      simp [marks]
  | cons i address ih =>
      obtain ⟨c, hc, hce⟩ := Option.bind_eq_some_iff.mp h
      have hmem := ih hce
      obtain ⟨before, after, hsplit⟩ := List.append_of_mem (List.mem_of_getElem? hc)
      cases tree with
      | text start stop value =>
          simp [children] at hc
      | document length nodes =>
          simp only [children] at hsplit
          simp [marks, hsplit, marksAll, hmem]
      | element e' nodes =>
          simp only [children] at hsplit
          simp [marks, hsplit, marksAll, hmem]

end Spine

section Loop

namespace Draft

/-- A tree that the loop has some turns later, or that it leaves in the end. -/
def Later (source : List Char) (d : Draft) (tree : Node) : Prop :=
  (∃ count after, Turns source count d after ∧ tree = after.tree) ∨ parse source = .ok tree

/-- What holds before every turn of the loop. -/
structure WellBuilt (source : List Char) (d : Draft) : Prop where
  pos_le : d.pos ≤ source.length
  document : ∃ nodes, d.tree = .document source.length nodes
  head?_stack : d.stack.head? = some []
  spine : d.stack.IsChain d.tree.LastOpen
  /-- A node off the stack has come to its end, and stays as it is unless it is growing. -/
  finished : ∀ address n, d.tree.at? address = some n → address ∉ d.stack →
    n.stop ≤ d.pos ∧
    (d.Growing address n ∨ ∀ tree, d.Later source tree → tree.at? address = some n)
  /-- So has every attribute, on the stack or off it. -/
  attributes : ∀ address e nodes, d.tree.at? address = some (.element e nodes) →
    (∀ x ∈ e.attributes, x.stop ≤ d.pos) ∧
    ∀ tree, d.Later source tree →
      ∃ e' nodes', tree.at? address = some (.element e' nodes') ∧ e'.attributes = e.attributes
  /-- A turn finds all it looks for, and moves on, or it stops as parsing does. -/
  advances : d.pos < source.length →
    (∃ u, d.turn source = .error (.unterminated u) ∧ parse source = .error u) ∨
    ∃ after, d.turn source = .ok after ∧ d.pos < after.pos ∧ after.pos ≤ source.length
  ends : d.pos = source.length → parse source = .ok (d.finish source.length)

end Draft

namespace Scan

variable {source : List Char} {a b : Scan} {ps qs : List Piece}

/-- **What a turn does in place.** -/
theorem Step.change
    {p : Piece}
    (h : Step a p b)
    (length : Nat) :
    (a.draft length).Change (b.draft length) := by
  have htake := Spine.take_draft a.spine length a.pos p
  rw [← h.spine_eq, ← h.pos_eq] at htake
  exact Draft.change_of_take (Spine.hasTop_draft length a.pos a.spine) htake

theorem Run.keepsHeadings
    (h : Run a ps b)
    (length : Nat) :
    (a.draft length).tree.KeepsHeadings (b.draft length).tree := by
  induction h with
  | refl a =>
      exact fun address n hn => ⟨n, hn, rfl⟩
  | head hstep _ ih =>
      exact (hstep.change length).keepsHeadings.trans ih

/-- What has settled is settled from then on. -/
theorem Run.settled
    {length : Nat} {address : List Nat} {n : Node}
    (h : Run a ps b)
    (hn : (a.draft length).Settled address n) :
    (b.draft length).Settled address n := by
  induction h with
  | refl a =>
      exact hn
  | head hstep _ ih =>
      exact ih (hn.change (fun _ hb _ => Spine.mem_stack_of_prefix hb) hstep.pos_lt
        (hstep.change length))

theorem Run.length_le
    (h : Run a ps b) :
    a.pos + ps.length ≤ b.pos := by
  induction h with
  | refl a =>
      exact Nat.le_refl _
  | head hstep _ ih =>
      have hlt := hstep.pos_lt
      rw [List.length_cons]
      omega

/-- A tree that comes later is that of a later state of the scan, or what is made of it. -/
theorem Run.exists_of_later
    {tree : Node}
    (h : Run (initial source) ps a)
    (hlater : (a.draft source.length).Later source tree) :
    ∃ qs b, Run a qs b ∧
      (tree = (b.draft source.length).tree ∨
        tree = (b.draft source.length).finish source.length) := by
  rcases hlater with ⟨count, after, hturns, rfl⟩ | hparse
  · obtain ⟨qs, b, hrun, _, rfl⟩ := h.exists_run_of_turns hturns
    exact ⟨qs, b, hrun, Or.inl rfl⟩
  · obtain ⟨qs, last, hwhole, hrest, rfl⟩ := parse_eq_ok_iff.mp hparse
    have hfinish := (Spine.finish_draft last.spine source.length last.pos).symm
    rcases h.comparable hwhole with ⟨rs, hrun⟩ | ⟨rs, hrun⟩
    · exact ⟨rs, last, hrun, Or.inr hfinish⟩
    · -- A scan that has left nothing does not go on.
      cases hrun with
      | refl =>
          exact ⟨[], a, Run.refl a, Or.inr hfinish⟩
      | head hstep _ =>
          cases hstep
          cases hrest

/-- What has settled is in every later tree. -/
theorem Run.at?_of_settled
    {tree : Node} {address : List Nat} {n : Node}
    (h : Run (initial source) ps a)
    (hn : (a.draft source.length).Settled address n)
    (hlater : (a.draft source.length).Later source tree) :
    tree.at? address = some n := by
  obtain ⟨qs, b, hrun, htree⟩ := h.exists_of_later hlater
  have hsettled := hrun.settled hn
  rcases htree with rfl | rfl
  · exact hsettled.found
  · refine at?_endAt hsettled.found fun inner hinner hprefix => hsettled.off_stack ?_
    exact Spine.mem_stack_of_prefix (List.mem_of_mem_tail hinner) hprefix

theorem Run.attributes_of_later
    {tree : Node} {address : List Nat} {e : Element} {nodes : List Node}
    (h : Run (initial source) ps a)
    (he : (a.draft source.length).tree.at? address = some (.element e nodes))
    (hlater : (a.draft source.length).Later source tree) :
    ∃ e' nodes', tree.at? address = some (.element e' nodes') ∧ e'.attributes = e.attributes := by
  obtain ⟨qs, b, hrun, htree⟩ := h.exists_of_later hlater
  have hkeeps : (a.draft source.length).tree.KeepsHeadings tree := by
    rcases htree with rfl | rfl
    · exact hrun.keepsHeadings source.length
    · exact (hrun.keepsHeadings source.length).trans (keepsHeadings_endAt _ _ _)
  obtain ⟨m, hm, hheading⟩ := hkeeps address _ he
  cases m with
  | element e' nodes' =>
      refine ⟨e', nodes', hm, ?_⟩
      exact congrArg Heading.attributes (Option.some.inj hheading)
  | document length nodes' =>
      cases hheading
  | text start stop value =>
      cases hheading

theorem Run.finished
    {address : List Nat} {n : Node}
    (h : Run (initial source) ps a)
    (hn : (a.draft source.length).tree.at? address = some n)
    (hoff : address ∉ (a.draft source.length).stack) :
    n.stop ≤ a.pos ∧
    ((a.draft source.length).Growing address n ∨
      ∀ tree, (a.draft source.length).Later source tree → tree.at? address = some n) := by
  have hstop : n.stop ≤ a.pos := by
    rcases h.fitsAt.at?_plug_cases hn with hmem | hle | ⟨j, q, c, _, hj, _⟩
    · exact absurd hmem hoff
    · exact hle
    · cases hj
  refine ⟨hstop, ?_⟩
  by_cases hgrowing : (a.draft source.length).Growing address n
  · exact Or.inl hgrowing
  · exact Or.inr fun tree hlater => h.at?_of_settled ⟨hn, hoff, hstop, hgrowing⟩ hlater

theorem Run.attribute_stop_le
    {address : List Nat} {e : Element} {nodes : List Node} {x : Attribute}
    (h : Run (initial source) ps a)
    (he : (a.draft source.length).tree.at? address = some (.element e nodes))
    (hx : x ∈ e.attributes) :
    x.stop ≤ a.pos := by
  have hmark := mem_marks_of_at? he
  simp only [draft, Spine.draft, Spine.marks_plug, marksAll, List.append_nil] at hmark
  have hstretch : (x.start, x.stop) ∈ (Mark.startTag e.heading).stretches :=
    List.mem_cons_of_mem _ (List.mem_map.mpr ⟨x, hx, rfl⟩)
  exact h.stretches_le _ hmark _ hstretch

theorem Run.parse_of_pos_eq
    (h : Run (initial source) ps a)
    (hpos : a.pos = source.length) :
    parse source = .ok ((a.draft source.length).finish source.length) := by
  have hrest := h.of.drop_eq
  rw [hpos, List.drop_length] at hrest
  exact parse_eq_ok_iff.mpr
    ⟨ps, a, h, hrest.symm, Spine.finish_draft a.spine source.length a.pos⟩

/-- The tree and the stack are well built at every place the scan comes to. -/
theorem Run.wellBuilt
    (h : Run (initial source) ps a) :
    (a.draft source.length).WellBuilt source where
  pos_le := h.of.pos_le
  document := Spine.exists_plug_eq
  head?_stack := Spine.head?_stack
  spine := Spine.isChain_stack
  finished := fun address n hn hoff => h.finished hn hoff
  attributes := fun address e nodes he =>
    ⟨fun x hx => h.attribute_stop_le he hx, fun tree hlater => h.attributes_of_later he hlater⟩
  advances := by
    intro hlt
    rcases h.turn_cases hlt with ⟨p, b, hstep⟩ | hstops
    · exact Or.inr ⟨_, hstep.turn h.of, hstep.pos_lt, (hstep.of h.of).pos_le⟩
    · exact Or.inl hstops
  ends := h.parse_of_pos_eq

/-- Every scan comes to a place where it cannot go on. -/
theorem exists_last_run (source : List Char) :
    ∃ ps a, Run (initial source) ps a ∧ ∀ p b, ¬ Step a p b := by
  cases hpieces : pieces source with
  | ok ps =>
      obtain ⟨last, hrun, hrest⟩ := pieces_eq_ok_iff.mp hpieces
      refine ⟨ps, last, hrun, fun p b hstep => ?_⟩
      cases hstep
      cases hrest
  | error u =>
      obtain ⟨ps, last, c, t, hrun, _, hrest, hstop⟩ := run_of_piecesAt_error Spine.empty hpieces
      refine ⟨ps, last, hrun, fun p b hstep => ?_⟩
      cases hstep with
      | read hnext =>
          cases hrest
          rw [hstop] at hnext
          cases hnext

end Scan

/--
**The right spine.**  Before every turn of the loop that builds a tree in place, the stack is the
document and the elements open below it, each the last child of the one before; nothing off the
stack ends behind the place the loop has come to or changes any more, except a text that may grow;
and a turn moves on or stops as parsing does.  So the loop ends, after no more turns than the text
has characters, and with the result of parsing.
-/
theorem loop_builds_right_spine (source : List Char) :
    (∀ count d, Draft.Turns source count (Draft.initial source.length) d →
      d.WellBuilt source ∧ count ≤ source.length) ∧
    ∃ count d, Draft.Turns source count (Draft.initial source.length) d ∧
      ((d.pos = source.length ∧ parse source = .ok (d.finish source.length)) ∨
        ∃ u, d.turn source = .error (.unterminated u) ∧ parse source = .error u) := by
  constructor
  · intro count d hturns
    rw [← Scan.draft_initial] at hturns
    obtain ⟨ps, a, hrun, rfl, rfl⟩ := (Scan.Run.refl _).exists_run_of_turns hturns
    have hlength := hrun.length_le
    have hle := hrun.of.pos_le
    exact ⟨hrun.wellBuilt, by omega⟩
  · obtain ⟨ps, a, hrun, hlast⟩ := Scan.exists_last_run source
    refine ⟨ps.length, a.draft source.length, hrun.turns (Scan.of_initial source), ?_⟩
    rcases hrun.of.pos_le.eq_or_lt with hpos | hlt
    · exact Or.inl ⟨hpos, hrun.parse_of_pos_eq hpos⟩
    · rcases hrun.turn_cases hlt with ⟨p, b, hstep⟩ | hstops
      · exact absurd hstep (hlast p b)
      · exact Or.inr hstops

/-- A text that ends where the loop has come to, before a `<` that begins no tag, will grow. -/
theorem loop_builds_right_spine_bare_less :
    ∃ d,
      Draft.Turns "<a>b<c".toList 2 (Draft.initial 6) d ∧
      d.stack = [[], [0]] ∧ d.Growing [0, 0] (.text 3 4 ['b']) ∧
      d.WellBuilt "<a>b<c".toList := by
  have hopen : (Draft.initial 6).turn "<a>b<c".toList =
      .ok ⟨3, .document 6 [.element ⟨['a'], [], 0, 3, none, 3, false⟩ []], [[], [0]]⟩ := by
    with_unfolding_all rfl
  have htext : Draft.turn "<a>b<c".toList
      ⟨3, .document 6 [.element ⟨['a'], [], 0, 3, none, 3, false⟩ []], [[], [0]]⟩ =
      .ok ⟨4, .document 6 [.element ⟨['a'], [], 0, 3, none, 3, false⟩ [.text 3 4 ['b']]],
        [[], [0]]⟩ := by
    with_unfolding_all rfl
  have hturns := Draft.Turns.head (by decide) hopen (.head (by decide) htext (.refl _))
  exact ⟨_, hturns, rfl, ⟨rfl, rfl, [0], rfl, _, 0, rfl, rfl, rfl⟩,
    ((loop_builds_right_spine _).1 _ _ hturns).1⟩

end Loop

end Markup
end NuspecLint
