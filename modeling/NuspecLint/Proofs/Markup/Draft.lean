import NuspecLint.Proofs.Markup.Address
import NuspecLint.Proofs.Markup.Alike
import NuspecLint.Proofs.Markup.Effect
import NuspecLint.Proofs.Markup.Unterminated

/-!
# Building a tree in place

Another way to make a document tree from a text: one tree that is changed in place, and a stack of
the nodes of it that are still open.

**Algorithm.**  The stack begins with the document.  A piece that adds a node adds it behind the
children of the node on top of the stack; a start tag also puts the new element on the stack.  An
element gets the end of its start tag as its end until its real end is known: an end tag sets the
end of the element it closes and of all elements above that one on the stack, and takes them off.
The end of the text ends what is left.  The stack holds addresses, since a node in the tree is known
by its address only.

**Strategy.**  A spine says which tree and which stack there are: every open element is the last
child of the one around it.  Each change in place is what a step does to the spine.

**Results.**
* `Spine.take_draft`: reading a piece in place is what reading it does to the spine.
* `Spine.finish_draft`: so is coming to the end of the text.
* `Scan.Run.turns` and `Scan.Run.exists_run_of_turns`: the loop takes a turn for every step of the
  scan.
-/

namespace NuspecLint
namespace Markup

open Text Node

/-- A document tree that is being built. -/
structure Draft where
  /-- How many characters have been taken in. -/
  pos : Nat
  /-- The document, as far as it is known. -/
  tree : Node
  /-- The addresses of the document and of the open elements, outermost first. -/
  stack : List (List Nat)

/-- Give the elements at some addresses an end. -/
def Node.endAt (stop : Nat) (addresses : List (List Nat)) (tree : Node) : Node :=
  addresses.foldr
    (fun address t => t.modifyAt (withElement fun e => { e with stop := stop }) address) tree

namespace Draft

/-- Nothing read yet. -/
def initial (length : Nat) : Draft :=
  ⟨0, .document length [], [[]]⟩

/-- Change the node on top of the stack, if there is one. -/
def modifyTop (f : Node → Node) (d : Draft) : Option Draft :=
  d.stack.getLast?.map fun top => { d with tree := d.tree.modifyAt f top }

/-- Add an element to the node on top of the stack, if there is one, and put it on the stack. -/
def push (element : Node) (d : Draft) : Option Draft :=
  d.stack.getLast?.map fun top =>
    let count := ((d.tree.at? top).map fun n => n.children.length).getD 0
    { d with
      tree := d.tree.modifyAt (·.append element) top
      stack := d.stack ++ [top ++ [count]] }

/-- The name of the element at an address. -/
def nameAt (d : Draft) (address : List Nat) : List Char :=
  ((d.tree.at? address).map Node.name).getD []

/--
How many open elements, of which the names are given innermost first, lie inside the one that an
end tag called `name` closes.
-/
def depthOf? (name : List Char) (names : List (List Char)) : Option Nat :=
  match names.findIdx? (· = name) with
  | some depth => some depth
  | none =>
      let folded := lower name
      names.findIdx? (lower · = folded)

/-- Close the element with `depth` others above it on the stack; its end tag is `[start, stop)`. -/
def close (depth start stop : Nat) (d : Draft) : Option Draft :=
  let index := d.stack.length - 1 - depth
  d.stack[index]?.map fun target =>
    { d with
      tree := (d.tree.endAt start (d.stack.drop (index + 1))).modifyAt
        (withElement fun e => { e with endTagStart := some start, stop := stop }) target
      stack := d.stack.take index }

/-- Take in the next piece.  There is no result if a node is looked for that is not on the stack. -/
def take (p : Piece) (d : Draft) : Option Draft :=
  let stop := d.pos + p.raw.length
  let after := { d with pos := stop }
  match p with
  | .skipped .. => some after
  | .cdata content =>
      let first := d.pos + Enclosure.cdata.opening.length
      after.modifyTop (·.append (.text first (first + content.length) content))
  | .text run =>
      after.modifyTop
        (withChildren fun nodes => (Spine.appendRun d.pos run nodes.reverse).reverse)
  | .startTag tag =>
      let attributes := attributesAt (d.pos + 1 + tag.name.length) tag.attributePart
      let element :=
        .element ⟨tag.name, attributes, d.pos, stop, none, stop, tag.selfClosing⟩ []
      if tag.selfClosing then after.modifyTop (·.append element) else after.push element
  | .endTag tag =>
      match depthOf? tag.name (d.stack.tail.reverse.map d.nameAt) with
      | none => some after
      | some depth => after.close depth d.pos stop

/-- The document, once all of a text of the given length has been taken in. -/
def finish (length : Nat) (d : Draft) : Node :=
  d.tree.endAt length d.stack.tail

/-- Why the building of a tree comes to a stop. -/
inductive Fault where
  | unterminated (u : Unterminated)
  /-- A node was looked for that is not on the stack. -/
  | notOnStack

/-- One turn of the loop: read the next piece of `source`, if there is one. -/
def turn (source : List Char) (d : Draft) : Except Fault Draft :=
  match source.drop d.pos with
  | [] => .ok d
  | c :: s =>
      match Piece.next c s with
      | .error kind => .error (.unterminated ⟨kind, d.pos⟩)
      | .ok (p, _) =>
          match d.take p with
          | none => .error .notOnStack
          | some after => .ok after

/-- The loop takes `count` turns, each of them before the end of `source`. -/
inductive Turns (source : List Char) : Nat → Draft → Draft → Prop
  | refl (d : Draft) :
      Turns source 0 d d
  | head
      {count : Nat} {d mid last : Draft}
      (hpos : d.pos < source.length)
      (hturn : d.turn source = .ok mid)
      (htail : Turns source count mid last) :
      Turns source (count + 1) d last

end Draft

/-- An open element as it is in the tree, with `more` behind the nodes it holds. -/
def OpenElement.node (e : OpenElement) (more : List Node) : Node :=
  .element ⟨e.name, e.attributes, e.start, e.startTagEnd, none, e.startTagEnd, false⟩
    (e.newest.reverse ++ more)

namespace Spine

/--
The document around some open elements, innermost first: `newest` are the nodes in the innermost of
them, newest first, and `more` come behind these.
-/
def plugWith (length : Nat) : List OpenElement → List Node → List Node → Node
  | [], newest, more => .document length (newest.reverse ++ more)
  | e :: outer, newest, more => plugWith length outer newest [e.node more]

/-- The tree of a spine, with `more` behind the nodes in the innermost open element. -/
def plug (length : Nat) (s : Spine) (more : List Node) : Node :=
  plugWith length s.opened s.newest more

/--
The stack that belongs to a spine: each open element is the newest child of the one around it, so
its address ends with the number of children that came before.
-/
def stackWith : List OpenElement → List Node → List (List Nat)
  | [], _ => [[]]
  | _ :: outer, newest =>
      let around := stackWith outer newest
      around ++ [around.getLast?.getD [] ++ [(innermost ⟨outer, newest⟩).length]]

def stack (s : Spine) : List (List Nat) :=
  stackWith s.opened s.newest

/-- The address of the innermost open element. -/
def address (s : Spine) : List Nat :=
  s.stack.getLast?.getD []

/-- The tree and the stack that a spine stands for. -/
def draft (length pos : Nat) (s : Spine) : Draft :=
  ⟨pos, s.plug length [], s.stack⟩

section Shape

variable (length : Nat) (s : Spine) (e : OpenElement) (outer : List OpenElement)
  (newest more : List Node)

@[simp] theorem plug_nil :
    plug length ⟨[], newest⟩ more = .document length (newest.reverse ++ more) := by
  rfl

@[simp] theorem plug_cons :
    plug length ⟨e :: outer, newest⟩ more = plug length ⟨outer, newest⟩ [e.node more] := by
  rfl

@[simp] theorem address_nil :
    address ⟨[], newest⟩ = [] := by
  rfl

theorem stack_cons :
    stack ⟨e :: outer, newest⟩ =
      stack ⟨outer, newest⟩ ++
        [address ⟨outer, newest⟩ ++ [(innermost ⟨outer, newest⟩).length]] := by
  rfl

theorem address_cons :
    address ⟨e :: outer, newest⟩ =
      address ⟨outer, newest⟩ ++ [(innermost ⟨outer, newest⟩).length] := by
  simp [address, stack_cons]

theorem stack_eq_append :
    stack ⟨e :: outer, newest⟩ =
      stack ⟨outer, newest⟩ ++ [address ⟨e :: outer, newest⟩] := by
  rw [address_cons, stack_cons]

theorem length_stack :
    s.stack.length = s.opened.length + 1 := by
  obtain ⟨opened, newest⟩ := s
  induction opened with
  | nil =>
      rfl
  | cons e outer ih =>
      rw [stack_cons, List.length_append, ih]
      rfl

/-- The innermost open element is on top of the stack. -/
theorem getLast?_stack :
    s.stack.getLast? = some s.address := by
  obtain ⟨opened, newest⟩ := s
  cases opened with
  | nil =>
      rfl
  | cons e outer =>
      rw [stack_eq_append, List.getLast?_concat]

theorem tail_stack_cons :
    (stack ⟨e :: outer, newest⟩).tail =
      (stack ⟨outer, newest⟩).tail ++ [address ⟨e :: outer, newest⟩] := by
  have hne : stack ⟨outer, newest⟩ ≠ [] := by
    rw [← List.length_pos_iff, length_stack]
    omega
  rw [stack_eq_append, List.tail_append_of_ne_nil hne]

/-- The nodes inside the innermost open element do not tell where it is. -/
@[simp] theorem stack_modifyNewest (f : List Node → List Node) :
    (s.modifyNewest f).stack = s.stack := by
  obtain ⟨opened, newest⟩ := s
  cases opened with
  | nil =>
      rfl
  | cons e outer =>
      rfl

@[simp] theorem stack_add (n : Node) :
    (s.add n).stack = s.stack :=
  stack_modifyNewest s _

theorem length_opened_add (n : Node) :
    (s.add n).opened.length = s.opened.length := by
  have hlength := congrArg List.length (headings_add n s)
  simpa [headings] using hlength

theorem plug_add (n : Node) :
    (s.add n).plug length more = s.plug length (n :: more) := by
  obtain ⟨opened, newest⟩ := s
  cases opened with
  | nil =>
      simp [add, modifyNewest]
  | cons e outer =>
      simp [add, modifyNewest, OpenElement.node]

end Shape

section Places

variable {length : Nat} {s : Spine} {more : List Node}

/-- The innermost open element as it is in the tree, or the document if no element is open. -/
def top (length : Nat) (s : Spine) (more : List Node) : Node :=
  match s.opened with
  | [] => .document length (s.newest.reverse ++ more)
  | e :: _ => e.node more

theorem children_top :
    (s.top length more).children = s.innermost.reverse ++ more := by
  obtain ⟨opened, newest⟩ := s
  cases opened with
  | nil =>
      rfl
  | cons e outer =>
      rfl

/-- What stands at the address of the innermost open element. -/
theorem at?_plug_address :
    (s.plug length more).at? s.address = some (s.top length more) := by
  obtain ⟨opened, newest⟩ := s
  induction opened generalizing more with
  | nil =>
      rfl
  | cons e outer ih =>
      rw [plug_cons, address_cons, at?_append, ih, Option.bind_some, at?_cons, children_top,
        ← List.length_reverse, List.getElem?_concat_length]
      rfl

theorem modify_reverse_concat (f : Node → Node) (x : Node) (nodes : List Node) :
    (nodes.reverse ++ [x]).modify nodes.length f = nodes.reverse ++ [f x] := by
  rw [List.modify_eq_take_cons_drop (by simp)]
  simp

/-- A change of the node behind those in the innermost open element. -/
theorem modifyAt_plug_last (f : Node → Node) (x : Node) :
    (s.plug length [x]).modifyAt f (s.address ++ [s.innermost.length]) = s.plug length [f x] := by
  obtain ⟨opened, newest⟩ := s
  induction opened generalizing f x with
  | nil =>
      simp [modifyAt_cons, withChildren, innermost, modify_reverse_concat]
  | cons e outer ih =>
      have hnode : (e.node [x]).modifyAt f [e.newest.length] = e.node [f x] := by
        simp [modifyAt_cons, withChildren, OpenElement.node, modify_reverse_concat]
      rw [modifyAt_append, plug_cons, address_cons, ih]
      simp only [innermost, hnode, plug_cons]

/-- A change of the nodes in the innermost open element. -/
theorem modifyAt_plug_address (f : List Node → List Node) :
    (s.plug length []).modifyAt (withChildren fun nodes => (f nodes.reverse).reverse) s.address =
      (s.modifyNewest f).plug length [] := by
  obtain ⟨opened, newest⟩ := s
  cases opened with
  | nil =>
      simp [withChildren, modifyNewest]
  | cons e outer =>
      rw [plug_cons, address_cons, modifyAt_plug_last]
      simp [withChildren, modifyNewest, OpenElement.node]

theorem modifyAt_plug_append (n : Node) :
    (s.plug length []).modifyAt (·.append n) s.address = s.plug length [n] := by
  have hchildren : (fun m : Node => m.append n) =
      withChildren fun nodes => (n :: nodes.reverse).reverse := by
    funext m
    simp [append]
  rw [hchildren, modifyAt_plug_address (n :: ·)]
  exact plug_add length s [] n

/-- The elements on the stack have the names of the open elements. -/
theorem map_name_stack :
    (s.stack.tail.reverse.map fun a => (((s.plug length more).at? a).map Node.name).getD []) =
      s.opened.map (·.name) := by
  obtain ⟨opened, newest⟩ := s
  induction opened generalizing more with
  | nil =>
      rfl
  | cons e outer ih =>
      rw [tail_stack_cons, List.reverse_append, List.reverse_singleton, List.singleton_append,
        List.map_cons, at?_plug_address, plug_cons, ih]
      rfl

end Places

theorem depthOf?_names (name : List Char) (opened : List OpenElement) :
    Draft.depthOf? name (opened.map (·.name)) = depthOf? name opened := by
  simp only [Draft.depthOf?, depthOf?, List.findIdx?_map]
  rfl

section Changes

variable {length : Nat} {s : Spine}

theorem modifyTop_draft (f : List Node → List Node) (pos : Nat) :
    (s.draft length pos).modifyTop (withChildren fun nodes => (f nodes.reverse).reverse) =
      some ((s.modifyNewest f).draft length pos) := by
  simp only [Draft.modifyTop, draft, getLast?_stack, Option.map_some, modifyAt_plug_address,
    stack_modifyNewest]

theorem append_draft (n : Node) (pos : Nat) :
    (s.draft length pos).modifyTop (·.append n) = some ((s.add n).draft length pos) := by
  simp only [Draft.modifyTop, draft, getLast?_stack, Option.map_some, modifyAt_plug_append,
    plug_add, stack_add]

theorem push_draft (e : OpenElement) (pos : Nat) :
    (s.draft length pos).push (e.node []) =
      some (draft length pos ⟨e :: s.opened, s.newest⟩) := by
  simp only [Draft.push, draft, getLast?_stack, Option.map_some, modifyAt_plug_append, plug_cons,
    stack_cons, at?_plug_address, children_top, Option.getD_some, List.append_nil,
    List.length_reverse]

/-- Elements that get no end tag are ended in place, the innermost first. -/
theorem abandon_draft
    {count : Nat} (length stop pos : Nat)
    (hcount : count ≤ s.opened.length) :
    (s.abandon stop count).draft length pos =
      ⟨pos, (s.plug length []).endAt stop (s.stack.drop (s.stack.length - count)),
        s.stack.take (s.stack.length - count)⟩ := by
  induction count generalizing s with
  | zero =>
      simp [abandon, draft, endAt]
  | succ count ih =>
      obtain ⟨opened, newest⟩ := s
      cases opened with
      | nil =>
          simp at hcount
      | cons e outer =>
          have hended : plug length ⟨outer, newest⟩ [e.close none stop] =
              (plug length ⟨e :: outer, newest⟩ []).modifyAt
                (withElement fun e => { e with stop := stop }) (address ⟨e :: outer, newest⟩) := by
            rw [plug_cons, address_cons, modifyAt_plug_last]
            simp [OpenElement.node, OpenElement.close, withElement]
          have hlength : (stack ⟨outer, newest⟩).length = outer.length + 1 := length_stack _
          simp only [List.length_cons] at hcount
          have hle : count ≤ (add (e.close none stop) ⟨outer, newest⟩).opened.length := by
            rw [length_opened_add]
            exact Nat.le_of_succ_le_succ hcount
          simp only [abandon]
          rw [ih hle, plug_add, stack_add, hended, stack_eq_append, List.length_append,
            List.length_singleton, Nat.add_sub_add_right, List.drop_append_of_le_length (by omega),
            List.take_append_of_le_length (by omega), endAt, endAt, List.foldr_append]
          rfl

/-- Closing the innermost open element by its end tag. -/
theorem closeInnermost_draft
    {start stop pos : Nat}
    (hne : s.opened ≠ []) :
    (s.closeInnermost start stop).draft length pos =
      ⟨pos, (s.plug length []).modifyAt
        (withElement fun e => { e with endTagStart := some start, stop := stop }) s.address,
        s.stack.dropLast⟩ := by
  obtain ⟨opened, newest⟩ := s
  cases opened with
  | nil =>
      exact absurd rfl hne
  | cons e outer =>
      rw [closeInnermost, draft, plug_add, stack_add, plug_cons, address_cons, modifyAt_plug_last,
        stack_eq_append, List.dropLast_concat]
      simp [OpenElement.node, OpenElement.close, withElement]

/-- An end tag closes in place what it closes in the spine. -/
theorem close_draft
    {depth : Nat} (start stop pos : Nat)
    (hdepth : depth < s.opened.length) :
    (s.draft length pos).close depth start stop =
      some (((s.abandon start depth).closeInnermost start stop).draft length pos) := by
  have hlength := length_stack s
  have hmid := abandon_draft length start pos (Nat.le_of_lt hdepth)
  have hindex : s.stack.length - depth = s.stack.length - 1 - depth + 1 := by omega
  generalize s.abandon start depth = mid at hmid
  simp only [draft, Draft.mk.injEq, true_and, hindex] at hmid
  obtain ⟨hplug, hstack⟩ := hmid
  have hne : mid.opened ≠ [] := by
    have hmidLength := length_stack mid
    rw [hstack, List.length_take] at hmidLength
    rw [← List.length_pos_iff]
    omega
  have htarget : s.stack[s.stack.length - 1 - depth]? = some mid.address := by
    rw [← getLast?_stack, hstack, List.getLast?_take, if_neg (by omega), Nat.add_sub_cancel,
      List.getElem?_eq_getElem (by omega), Option.some_or]
  have hleft : mid.stack.dropLast = s.stack.take (s.stack.length - 1 - depth) := by
    rw [hstack, List.dropLast_eq_take, List.length_take, List.take_take]
    congr 1
    omega
  rw [closeInnermost_draft hne, hplug, hleft]
  simp only [Draft.close, draft, htarget, Option.map_some]

/-- **Reading a piece in place** is what reading it does to the spine. -/
theorem take_draft (s : Spine) (length pos : Nat) (p : Piece) :
    (s.draft length pos).take p = some ((s.step pos p).draft length (pos + p.raw.length)) := by
  cases p with
  | skipped kind body =>
      rfl
  | cdata content =>
      exact append_draft _ _
  | text run =>
      exact modifyTop_draft _ _
  | startTag tag =>
      cases hself : tag.selfClosing with
      | true =>
          simp only [Draft.take, step, hself, if_true]
          exact append_draft _ _
      | false =>
          simp only [Draft.take, step, hself, Bool.false_eq_true, if_false]
          exact push_draft ⟨tag.name, attributesAt (pos + 1 + tag.name.length) tag.attributePart,
            pos, pos + tag.raw.length, []⟩ _
  | endTag tag =>
      have hnames : (s.draft length pos).stack.tail.reverse.map (s.draft length pos).nameAt =
          s.opened.map (·.name) :=
        map_name_stack
      simp only [Draft.take, step, hnames, depthOf?_names]
      cases hdepth : depthOf? tag.name s.opened with
      | none =>
          rfl
      | some depth =>
          obtain ⟨inner, target, outer, hheadings, hlength, _⟩ := closes_of_depthOf? hdepth
          have hlt : depth < s.opened.length := by
            have hsum := congrArg List.length hheadings
            rw [List.length_map, List.length_append, List.length_cons] at hsum
            omega
          exact close_draft pos _ _ hlt

/-- **Coming to the end of the text in place** is what it does to the spine. -/
theorem finish_draft (s : Spine) (length pos : Nat) :
    (s.draft length pos).finish length = s.finish length := by
  have hended := abandon_draft length length pos (Nat.le_refl s.opened.length)
  rw [length_stack, Nat.add_sub_cancel_left, List.drop_one] at hended
  have htree := congrArg Draft.tree hended
  have hopened := opened_abandon_length length s
  rw [finish]
  generalize s.abandon length s.opened.length = last at htree hopened
  obtain ⟨opened, newest⟩ := last
  subst hopened
  simp only [draft, plug_nil, List.append_nil] at htree
  exact htree.symm

end Changes

end Spine

namespace Scan

variable {source : List Char} {a b : Scan}

/-- The tree and the stack that a state of the scan stands for. -/
def draft (length : Nat) (a : Scan) : Draft :=
  a.spine.draft length a.pos

theorem draft_initial (source : List Char) :
    (initial source).draft source.length = Draft.initial source.length := by
  rfl

/-- A step of the scan is a turn of the loop. -/
theorem Step.turn
    {p : Piece}
    (h : Step a p b)
    (ha : a.Of source) :
    (a.draft source.length).turn source = .ok (b.draft source.length) := by
  have hdrop := ha.drop_eq
  cases h with
  | @read pos c s rest p spine hnext =>
      simp only at hdrop
      simp only [Draft.turn, draft, Spine.draft, hdrop, hnext]
      have htake := Spine.take_draft spine source.length pos p
      simp only [Spine.draft] at htake
      rw [htake]

theorem Step.pos_lt_length
    {p : Piece}
    (h : Step a p b)
    (ha : a.Of source) :
    a.pos < source.length := by
  have hlt := h.pos_lt
  have hle := (h.of ha).pos_le
  omega

/-- Before the end of the text the scan makes a step, or the loop stops as parsing does. -/
theorem Run.turn_cases
    {ps : List Piece}
    (h : Run (initial source) ps a)
    (hlt : a.pos < source.length) :
    (∃ p b, Step a p b) ∨
    ∃ u, (a.draft source.length).turn source = .error (.unterminated u) ∧
      parse source = .error u := by
  obtain ⟨pos, rest, spine⟩ := a
  have hdrop := h.of.drop_eq
  simp only at hdrop hlt
  cases rest with
  | nil =>
      rw [List.drop_eq_nil_iff] at hdrop
      omega
  | cons c s =>
      cases hnext : Piece.next c s with
      | ok found =>
          exact Or.inl ⟨_, _, Step.read hnext⟩
      | error kind =>
          refine Or.inr ⟨⟨kind, pos⟩, ?_, ?_⟩
          · simp only [Draft.turn, draft, Spine.draft, hdrop, hnext]
          · exact parse_eq_error_iff_pieces.mpr (piecesAt_of_run_error h rfl hnext)

theorem Run.turns
    {ps : List Piece}
    (h : Run a ps b)
    (ha : a.Of source) :
    Draft.Turns source ps.length (a.draft source.length) (b.draft source.length) := by
  induction h with
  | refl a =>
      exact Draft.Turns.refl _
  | head hstep _ ih =>
      exact Draft.Turns.head (hstep.pos_lt_length ha) (hstep.turn ha) (ih (hstep.of ha))

/-- What the loop comes to, the scan comes to with as many pieces. -/
theorem Run.exists_run_of_turns
    {ps : List Piece} {count : Nat} {d : Draft}
    (h : Run (initial source) ps a)
    (hturns : Draft.Turns source count (a.draft source.length) d) :
    ∃ qs b, Run a qs b ∧ qs.length = count ∧ d = b.draft source.length := by
  generalize hstart : a.draft source.length = first at hturns
  induction hturns generalizing a ps with
  | refl d =>
      exact ⟨[], a, Run.refl a, rfl, hstart.symm⟩
  | head hpos hturn _ ih =>
      subst hstart
      rcases h.turn_cases hpos with ⟨p, b, hstep⟩ | ⟨u, hfault, _⟩
      · have hnext := hstep.turn h.of
        rw [hturn] at hnext
        cases hnext
        obtain ⟨qs, last, hrun, hcount, hlast⟩ := ih (h.concat hstep) rfl
        exact ⟨p :: qs, last, Run.head hstep hrun, by simp [hcount], hlast⟩
      · rw [hturn] at hfault
        cases hfault

end Scan

end Markup
end NuspecLint
