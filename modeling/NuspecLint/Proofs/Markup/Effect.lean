import NuspecLint.Proofs.Markup.Laminar

/-!
# Open and finished elements

What reading a piece does to the elements of a tree under construction, without the nodes they
hold.

**View.**  A heading is what is known of an element from its start tag.  A tree under
construction has the headings of its open elements, innermost first, and its finished elements.

**Results.**
* `Spine.effect_step`: a piece leaves the open elements alone, opens one, or closes one together
  with all that are open inside it.
* `Spine.mem_elements_finish`: the end of the text closes what is still open.
-/

namespace NuspecLint
namespace Markup

open Text Node

/-- What is known of an element from its start tag. -/
structure Heading where
  name : List Char
  attributes : List Attribute
  start : Nat
  startTagEnd : Nat

/-- The element with this heading that is ended at `stop`. -/
def Heading.ended (h : Heading) (endTagStart : Option Nat) (stop : Nat) : Element :=
  ⟨h.name, h.attributes, h.start, h.startTagEnd, endTagStart, stop, false⟩

def OpenElement.heading (e : OpenElement) : Heading :=
  ⟨e.name, e.attributes, e.start, e.startTagEnd⟩

def Element.heading (e : Element) : Heading :=
  ⟨e.name, e.attributes, e.start, e.startTagEnd⟩

@[simp] theorem OpenElement.heading_name (e : OpenElement) :
    e.heading.name = e.name := by
  rfl

@[simp] theorem Heading.heading_ended
    (h : Heading) (endTagStart : Option Nat) (stop : Nat) :
    (h.ended endTagStart stop).heading = h := by
  rfl

namespace Node

/-- The element that a node is. -/
def element? : Node → Option Element
  | element e _ => some e
  | _ => none

/-- The elements of some trees, in document order. -/
def elementsAll (nodes : List Node) : List Element :=
  (preorderAll nodes).filterMap element?

/-- The elements of a tree, in document order. -/
def elements (tree : Node) : List Element :=
  tree.nodes.filterMap element?

@[simp] theorem elementsAll_nil :
    elementsAll [] = [] := by
  simp [elementsAll]

@[simp] theorem elementsAll_cons
    (n : Node) (nodes : List Node) :
    elementsAll (n :: nodes) =
      n.element?.toList ++ elementsAll n.children ++ elementsAll nodes := by
  cases h : n.element? <;> simp [elementsAll, h]

theorem mem_elementsAll_reverse
    {e : Element} {nodes : List Node} :
    e ∈ elementsAll nodes.reverse ↔ e ∈ elementsAll nodes := by
  simp [elementsAll, mem_preorderAll_reverse]

theorem elements_document (length : Nat) (nodes : List Node) :
    (document length nodes).elements = elementsAll nodes := by
  rw [elements, nodes_eq_cons, beneath_eq_preorderAll, List.filterMap_cons_none rfl]
  rfl

/-- A run of text brings no element. -/
theorem elementsAll_appendRun
    (start : Nat) (run : List Char) (newest : List Node) :
    elementsAll (Spine.appendRun start run newest) = elementsAll newest := by
  rcases Spine.appendRun_cases start run newest with
    ⟨first, value, rest, rfl, heq⟩ | ⟨_, heq⟩
  · rw [heq]
    simp [element?, children]
  · rw [heq]
    simp [element?, children]

end Node

namespace Spine

/-- The headings of the open elements, innermost first. -/
def headings (s : Spine) : List Heading :=
  s.opened.map OpenElement.heading

/-- The finished elements. -/
def elements (s : Spine) : List Element :=
  s.opened.flatMap (fun e => elementsAll e.newest) ++ elementsAll s.newest

@[simp] theorem headings_modifyNewest (f : List Node → List Node) (s : Spine) :
    (s.modifyNewest f).headings = s.headings := by
  obtain ⟨opened, newest⟩ := s
  cases opened with
  | nil =>
      rfl
  | cons e outer =>
      rfl

@[simp] theorem headings_add (n : Node) (s : Spine) :
    (s.add n).headings = s.headings :=
  headings_modifyNewest _ s

theorem mem_elements_modifyNewest
    {f : List Node → List Node} {e : Element} {P : Prop}
    (s : Spine)
    (hf : ∀ newest, e ∈ elementsAll (f newest) ↔ e ∈ elementsAll newest ∨ P) :
    e ∈ (s.modifyNewest f).elements ↔ e ∈ s.elements ∨ P := by
  obtain ⟨opened, newest⟩ := s
  cases opened with
  | nil =>
      simp [elements, modifyNewest, hf]
  | cons inner outer =>
      simp only [elements, modifyNewest, List.flatMap_cons, List.mem_append, hf]
      tauto

theorem mem_elements_add
    {e : Element} (n : Node) (s : Spine) :
    e ∈ (s.add n).elements ↔ e ∈ s.elements ∨ e ∈ elementsAll [n] := by
  apply mem_elements_modifyNewest
  intro newest
  simp only [elementsAll_cons, elementsAll_nil, List.append_nil, List.mem_append]
  tauto

/-- Closing the innermost open element adds it to the finished ones. -/
theorem mem_elements_close
    {x : Element} (e : OpenElement) (outer : List OpenElement) (newest : List Node)
    (endTagStart : Option Nat) (stop : Nat) :
    x ∈ (add (e.close endTagStart stop) ⟨outer, newest⟩).elements ↔
      x ∈ elements ⟨e :: outer, newest⟩ ∨ x = e.heading.ended endTagStart stop := by
  have hclose : x ∈ elementsAll [e.close endTagStart stop] ↔
      x = e.heading.ended endTagStart stop ∨ x ∈ elementsAll e.newest := by
    simp [OpenElement.close, element?, children, mem_elementsAll_reverse,
      Heading.ended, OpenElement.heading]
  rw [mem_elements_add, hclose]
  simp only [elements, List.flatMap_cons, List.mem_append]
  tauto

theorem headings_abandon (stop count : Nat) (s : Spine) :
    (s.abandon stop count).headings = s.headings.drop count := by
  induction count generalizing s with
  | zero =>
      rfl
  | succ count ih =>
      obtain ⟨opened, newest⟩ := s
      cases opened with
      | nil =>
          simp [abandon, headings]
      | cons e outer =>
          simp only [abandon]
          rw [ih, headings_add]
          simp [headings]

theorem mem_elements_abandon
    {x : Element} (stop count : Nat) (s : Spine) :
    x ∈ (s.abandon stop count).elements ↔
      x ∈ s.elements ∨ ∃ h ∈ s.headings.take count, x = h.ended none stop := by
  induction count generalizing s with
  | zero =>
      simp [abandon]
  | succ count ih =>
      obtain ⟨opened, newest⟩ := s
      cases opened with
      | nil =>
          simp [abandon, headings]
      | cons e outer =>
          simp only [abandon]
          rw [ih, mem_elements_close, headings_add]
          simp only [headings, List.map_cons, List.take_succ_cons, List.mem_cons,
            exists_eq_or_imp]
          tauto

/-- An end tag called `name` closes `target`, which has the headings `inner` inside it. -/
def Closes
    (name : List Char) (inner : List Heading) (target : Heading) (outer : List Heading) :
    Prop :=
  (target.name = name ∧ ∀ h ∈ inner, h.name ≠ name) ∨
  ((∀ h ∈ inner ++ target :: outer, h.name ≠ name) ∧
    lower target.name = lower name ∧ ∀ h ∈ inner, lower h.name ≠ lower name)

theorem exists_append_of_findIdx?
    {α : Type} {p : α → Bool} {l : List α} {depth : Nat}
    (h : l.findIdx? p = some depth) :
    ∃ inner target outer,
      l = inner ++ target :: outer ∧ inner.length = depth ∧
      p target = true ∧ ∀ x ∈ inner, p x = false := by
  induction l generalizing depth with
  | nil =>
      simp at h
  | cons a l ih =>
      rw [List.findIdx?_cons] at h
      cases ha : p a with
      | true =>
          simp only [ha, if_true, Option.some.injEq] at h
          exact ⟨[], a, l, rfl, h, ha, by simp⟩
      | false =>
          simp only [ha, Bool.false_eq_true, if_false] at h
          obtain ⟨d, hd, rfl⟩ := Option.map_eq_some_iff.mp h
          obtain ⟨inner, target, outer, rfl, rfl, htarget, hinner⟩ := ih hd
          refine ⟨a :: inner, target, outer, rfl, rfl, htarget, ?_⟩
          intro x hx
          rcases List.mem_cons.mp hx with rfl | hx
          · exact ha
          · exact hinner x hx

/-- The element that an end tag closes. -/
theorem closes_of_depthOf?
    {name : List Char} {opened : List OpenElement} {depth : Nat}
    (h : depthOf? name opened = some depth) :
    ∃ inner target outer,
      opened.map OpenElement.heading = inner ++ target :: outer ∧
      inner.length = depth ∧ Closes name inner target outer := by
  unfold depthOf? at h
  split at h
  · next d hd =>
      cases h
      obtain ⟨inner, target, outer, rfl, rfl, htarget, hinner⟩ := exists_append_of_findIdx? hd
      refine ⟨inner.map OpenElement.heading, target.heading,
        outer.map OpenElement.heading, by simp, by simp, Or.inl ⟨?_, ?_⟩⟩
      · simpa using htarget
      · intro k hk
        obtain ⟨e, he, rfl⟩ := List.mem_map.mp hk
        simpa using hinner e he
  · next hnone =>
      have hexact := List.findIdx?_eq_none_iff.mp hnone
      obtain ⟨inner, target, outer, rfl, rfl, htarget, hinner⟩ := exists_append_of_findIdx? h
      refine ⟨inner.map OpenElement.heading, target.heading,
        outer.map OpenElement.heading, by simp, by simp, Or.inr ⟨?_, ?_, ?_⟩⟩
      · intro k hk
        rw [← List.map_cons, ← List.map_append] at hk
        obtain ⟨e, he, rfl⟩ := List.mem_map.mp hk
        simpa using hexact e he
      · simpa using htarget
      · intro k hk
        obtain ⟨e, he, rfl⟩ := List.mem_map.mp hk
        simpa using hinner e he

/-- An end tag closes nothing only if no open element has its name up to case. -/
theorem lower_ne_of_depthOf?
    {name : List Char} {opened : List OpenElement}
    (h : depthOf? name opened = none) :
    ∀ k ∈ opened.map OpenElement.heading, lower k.name ≠ lower name := by
  unfold depthOf? at h
  split at h
  · cases h
  · intro k hk
    obtain ⟨e, he, rfl⟩ := List.mem_map.mp hk
    simpa using List.findIdx?_eq_none_iff.mp h e he

/-- What reading the piece `p` at `pos` can do to the open and the finished elements. -/
inductive Effect (s : Spine) (pos : Nat) (p : Piece) (s' : Spine) : Prop
  | keeps
      (hheadings : s'.headings = s.headings)
      (hold : ∀ e ∈ s.elements, e ∈ s'.elements)
      (hnew : ∀ e ∈ s'.elements, e.selfClosing = false → e ∈ s.elements)
      (hstray : ∀ tag, p = .endTag tag → ∀ h ∈ s.headings, lower h.name ≠ lower tag.name)
  | opens
      (h : Heading)
      (hstart : h.start = pos)
      (hheadings : s'.headings = h :: s.headings)
      (helements : ∀ e, e ∈ s'.elements ↔ e ∈ s.elements)
      (htag : ∀ tag, p ≠ .endTag tag)
  | closes
      (tag : EndTag)
      (inner outer : List Heading)
      (target : Heading)
      (hpiece : p = .endTag tag)
      (hheadings : s.headings = inner ++ target :: outer)
      (hcloses : Closes tag.name inner target outer)
      (houter : s'.headings = outer)
      (helements : ∀ e, e ∈ s'.elements ↔
        e ∈ s.elements ∨ (∃ h ∈ inner, e = h.ended none pos) ∨
        e = target.ended (some pos) (pos + tag.raw.length))

theorem effect_of_endTag
    (s : Spine) (pos : Nat) (tag : EndTag) :
    Effect s pos (.endTag tag) (s.step pos (.endTag tag)) := by
  cases hdepth : depthOf? tag.name s.opened with
  | none =>
      have hstep : s.step pos (.endTag tag) = s := by
        simp [step, hdepth]
      rw [hstep]
      refine Effect.keeps rfl (fun e he => he) (fun e he _ => he) ?_
      intro tag' htag
      cases htag
      exact lower_ne_of_depthOf? hdepth
  | some depth =>
      obtain ⟨inner, target, outer, hheadings, hlength, hcloses⟩ := closes_of_depthOf? hdepth
      have hstep : s.step pos (.endTag tag) =
          (s.abandon pos depth).closeInnermost pos (pos + tag.raw.length) := by
        simp [step, hdepth, Piece.raw]
      have hdrop : (s.abandon pos depth).headings = target :: outer := by
        rw [headings_abandon, headings, hheadings, ← hlength, List.drop_left]
      have htake : s.headings.take depth = inner := by
        rw [headings, hheadings, ← hlength, List.take_left]
      have habandon : ∀ x, x ∈ (s.abandon pos depth).elements ↔
          x ∈ s.elements ∨ ∃ h ∈ inner, x = h.ended none pos := by
        intro x
        rw [mem_elements_abandon, htake]
      rw [hstep]
      generalize s.abandon pos depth = mid at hdrop habandon
      obtain ⟨opened, newest⟩ := mid
      cases opened with
      | nil =>
          simp [headings] at hdrop
      | cons e rest =>
          simp only [headings, List.map_cons, List.cons.injEq] at hdrop
          obtain ⟨rfl, rfl⟩ := hdrop
          refine Effect.closes tag inner _ _ rfl hheadings hcloses ?_ ?_
          · exact headings_add _ _
          · intro x
            simp only [closeInnermost]
            rw [mem_elements_close, habandon, or_assoc]

/-- **What reading a piece does to the elements.** -/
theorem effect_step
    (s : Spine) (pos : Nat) (p : Piece) :
    Effect s pos p (s.step pos p) := by
  cases p with
  | skipped kind body =>
      exact Effect.keeps rfl (fun e he => he) (fun e he _ => he) (by simp)
  | cdata content =>
      refine Effect.keeps (headings_add _ s) ?_ ?_ (by simp)
      · intro e he
        exact (mem_elements_add _ s).mpr (Or.inl he)
      · intro e he _
        simpa [step, mem_elements_add, element?, children] using he
  | endTag tag =>
      exact effect_of_endTag s pos tag
  | startTag tag =>
      cases hself : tag.selfClosing with
      | true =>
          refine Effect.keeps ?_ ?_ ?_ (by simp)
          · simp [step, hself]
          · intro e he
            simp only [step, hself, if_true]
            exact (mem_elements_add _ s).mpr (Or.inl he)
          · intro e he hopen
            simp only [step, hself, if_true, mem_elements_add, elementsAll_cons, element?,
              children, elementsAll_nil, List.append_nil, Option.toList_some,
              List.mem_singleton] at he
            rcases he with he | rfl
            · exact he
            · cases hopen
      | false =>
          simp only [step, hself, Bool.false_eq_true, if_false]
          refine Effect.opens _ ?_ rfl ?_ (by simp)
          · rfl
          · intro e
            simp [elements]
  | text run =>
      refine Effect.keeps (headings_modifyNewest _ s) ?_ ?_ (by simp)
      · intro e he
        have hiff := mem_elements_modifyNewest (e := e) (P := False) s
          (fun newest => by rw [elementsAll_appendRun pos run newest]; simp)
        exact hiff.mpr (Or.inl he)
      · intro e he _
        have hiff := mem_elements_modifyNewest (e := e) (P := False) s
          (fun newest => by rw [elementsAll_appendRun pos run newest]; simp)
        simpa using hiff.mp he

theorem opened_abandon_length (stop : Nat) (s : Spine) :
    (s.abandon stop s.opened.length).opened = [] := by
  have h := headings_abandon stop s.opened.length s
  have hdrop : s.headings.drop s.opened.length = [] := by
    simp [headings]
  rw [hdrop] at h
  exact List.map_eq_nil_iff.mp h

/-- The end of the text closes what is still open. -/
theorem mem_elements_finish
    {x : Element} (length : Nat) (s : Spine) :
    x ∈ (s.finish length).elements ↔
      x ∈ s.elements ∨ ∃ h ∈ s.headings, x = h.ended none length := by
  have helements := @mem_elements_abandon x length s.opened.length s
  rw [elements, opened_abandon_length] at helements
  simp only [List.flatMap_nil, List.nil_append] at helements
  rw [finish, elements_document, mem_elementsAll_reverse, helements]
  have htake : s.headings.take s.opened.length = s.headings := by
    simp [headings]
  rw [htake]

end Spine

end Markup
end NuspecLint
