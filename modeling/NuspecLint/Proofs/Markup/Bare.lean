import NuspecLint.Proofs.Markup.Alike
import NuspecLint.Proofs.Markup.Rewriting

/-!
# Names and texts of a tree

What is left of a tree without attributes and without places, and how it comes from the pieces of a
text alone.

**View.**  A bare tree has the names of the elements, the values of the texts and their order.  The
place at which a piece stands can matter to it in one way only: a run of plain text that touches
the text before it extends that text.  Where no plain text holds a `<` there are no such runs.

**Results.**
* `Node.descendants_bare`: the nodes of a bare tree.
* `Spine.bare_step`: a piece that extends no text adds to a bare tree under construction what it
  adds anywhere.
* `Spine.bare_run`: the bare tree is made by the pieces, one after the other.
* `parse_rewritten`: a text with something else inside a comment, an instruction or a quoted string
  is parsed into the same bare tree.
-/

namespace NuspecLint
namespace Markup

namespace Node

/-- An element with its name and what it holds. -/
def named (name : List Char) (children : List Node) : Node :=
  .element ⟨name, [], 0, 0, none, 0, false⟩ children

/-- A text with its value. -/
def saying (value : List Char) : Node :=
  .text 0 0 value

mutual

/-- The tree without its attributes and without its places. -/
def bare : Node → Node
  | document _ nodes => document 0 (bareAll nodes)
  | element e nodes => named e.name (bareAll nodes)
  | text _ _ value => saying value

/-- The trees without their attributes and without their places. -/
def bareAll : List Node → List Node
  | [] => []
  | n :: nodes => bare n :: bareAll nodes

end

@[simp] theorem bareAll_eq_map (nodes : List Node) :
    bareAll nodes = nodes.map bare := by
  induction nodes with
  | nil =>
      simp [bareAll]
  | cons n nodes ih =>
      simp [bareAll, ih]

@[simp] theorem isText_bare (n : Node) :
    n.bare.isText = n.isText := by
  cases n <;> simp [bare, named, saying, isText]

@[simp] theorem isElement_bare (n : Node) :
    n.bare.isElement = n.isElement := by
  cases n <;> simp [bare, named, saying, isElement]

@[simp] theorem name_bare (n : Node) :
    n.bare.name = n.name := by
  cases n <;> simp [bare, named, saying, name]

@[simp] theorem textValue_bare (n : Node) :
    n.bare.textValue = n.textValue := by
  cases n <;> simp [bare, named, saying, textValue]

@[simp] theorem children_bare (n : Node) :
    n.bare.children = n.children.map bare := by
  cases n <;> simp [bare, named, saying, children]

theorem preorderAll_map_bare (nodes : List Node) :
    preorderAll (nodes.map bare) = (preorderAll nodes).map bare := by
  induction nodes using forest_induction with
  | nil =>
      simp
  | cons n nodes ihBelow ihAfter =>
      simp [ihBelow, ihAfter]

/-- The nodes of a bare tree that satisfy what can be seen of bare nodes. -/
theorem descendants_bare
    {keep : Node → Bool}
    (hkeep : ∀ n, keep n.bare = keep n)
    (includeSelf : Bool) (n : Node) :
    n.bare.descendants keep includeSelf = (n.descendants keep includeSelf).map bare := by
  have hwalk : preorderAll (if includeSelf then [n.bare] else n.bare.children) =
      (preorderAll (if includeSelf then [n] else n.children)).map bare := by
    rw [← preorderAll_map_bare]
    cases includeSelf <;> simp
  unfold descendants
  rw [walk_eq_preorderAll, walk_eq_preorderAll, hwalk, List.filter_map]
  congr 2
  funext m
  exact hkeep m

@[simp] theorem contentValue_bare (n : Node) :
    n.bare.contentValue = n.contentValue := by
  unfold contentValue
  rw [descendants_bare isText_bare, List.flatMap_map]
  simp

end Node

/-- An open element without its attributes and without its places. -/
def OpenElement.bare (e : OpenElement) : OpenElement :=
  ⟨e.name, [], 0, 0, e.newest.map Node.bare⟩

theorem OpenElement.bare_close (e : OpenElement) (endTagStart : Option Nat) (stop : Nat) :
    (e.close endTagStart stop).bare = e.bare.close none 0 := by
  simp [close, bare, Node.bare, Node.named]

namespace Spine

/-- The tree under construction without attributes and without places. -/
def bare (s : Spine) : Spine :=
  ⟨s.opened.map OpenElement.bare, s.newest.map Node.bare⟩

theorem bare_add (n : Node) (s : Spine) :
    (s.add n).bare = s.bare.add n.bare := by
  obtain ⟨opened, newest⟩ := s
  cases opened <;> simp [bare, add, modifyNewest, OpenElement.bare]

theorem bare_abandon (stop count : Nat) (s : Spine) :
    (s.abandon stop count).bare = s.bare.abandon 0 count := by
  induction count generalizing s with
  | zero =>
      rfl
  | succ count ih =>
      obtain ⟨opened, newest⟩ := s
      cases opened with
      | nil =>
          rfl
      | cons e outer =>
          rw [abandon, ih, bare_add, OpenElement.bare_close]
          rfl

theorem bare_closeInnermost (start stop : Nat) (s : Spine) :
    (s.closeInnermost start stop).bare = s.bare.abandon 0 1 := by
  obtain ⟨opened, newest⟩ := s
  cases opened with
  | nil =>
      rfl
  | cons e outer =>
      rw [closeInnermost, bare_add, OpenElement.bare_close]
      rfl

theorem depthOf?_bare (name : List Char) (opened : List OpenElement) :
    depthOf? name (opened.map OpenElement.bare) = depthOf? name opened := by
  unfold depthOf?
  simp only [List.findIdx?_map]
  rfl

theorem bare_finish (length : Nat) (s : Spine) :
    (s.finish length).bare = s.bare.finish 0 := by
  have habandon := congrArg Spine.newest (bare_abandon length s.opened.length s)
  simp only [finish, Node.bare, Node.bareAll_eq_map, List.map_reverse]
  rw [show s.bare.opened.length = s.opened.length by simp [bare], ← habandon]
  rfl

/-- What a piece that extends no text adds to a bare tree, wherever it stands. -/
def take (s : Spine) : Piece → Spine
  | .skipped .. => s
  | .cdata value => s.add (Node.saying value)
  | .text value => s.add (Node.saying value)
  | .startTag tag =>
      if tag.selfClosing then s.add (Node.named tag.name [])
      else { s with opened := ⟨tag.name, [], 0, 0, []⟩ :: s.opened }
  | .endTag tag =>
      match depthOf? tag.name s.opened with
      | none => s
      | some depth => (s.abandon 0 depth).abandon 0 1

/-- A piece that extends no text adds what it adds anywhere. -/
theorem bare_step
    {pos : Nat} {p : Piece} {s : Spine}
    (hclear : ∀ run, p = .text run → s.ClearAt pos) :
    (s.step pos p).bare = s.bare.take p := by
  cases p with
  | skipped kind body =>
      rfl
  | cdata content =>
      simp only [step, take, bare_add]
      rfl
  | text run =>
      simp only [step, take, hclear run rfl run, bare_add]
      rfl
  | startTag tag =>
      cases hself : tag.selfClosing with
      | true =>
          simp only [step, take, hself, if_true, bare_add]
          simp [Node.bare, Node.named]
      | false =>
          simp [step, take, hself, bare, OpenElement.bare]
  | endTag tag =>
      have hdepth : depthOf? tag.name s.bare.opened = depthOf? tag.name s.opened :=
        depthOf?_bare tag.name s.opened
      simp only [step, take, hdepth]
      cases depthOf? tag.name s.opened with
      | none =>
          rfl
      | some depth =>
          simp only [bare_closeInnermost, bare_abandon]

section Texts

variable {limit pos : Nat} {s : Spine} {p : Piece}

/-- A text that could be extended ends at `limit` or before. -/
def EndsBy (limit : Nat) (s : Spine) : Prop :=
  ∀ n ∈ s.innermost.head?, n.isText = true → n.stop ≤ limit

theorem EndsBy.mono
    {limit' : Nat}
    (h : s.EndsBy limit)
    (hle : limit ≤ limit') :
    s.EndsBy limit' :=
  fun n hn htext => (h n hn htext).trans hle

/-- A text that ended earlier is not extended. -/
theorem EndsBy.clearAt
    (h : s.EndsBy limit)
    (hlt : limit < pos) :
    s.ClearAt pos := by
  have happend : ∀ run, appendRun pos run s.innermost =
      .text pos (pos + run.length) run :: s.innermost := by
    intro run
    rcases appendRun_cases pos run s.innermost with ⟨first, value, rest, heq, _⟩ | ⟨_, heq⟩
    · have hstop := h (.text first pos value) (by simp [heq]) rfl
      rw [Node.stop] at hstop
      omega
    · exact heq
  intro run
  obtain ⟨opened, newest⟩ := s
  cases opened <;> simpa [modifyNewest, add, innermost] using happend run

theorem endsBy_add
    {n : Node}
    (h : n.isText = true → n.stop ≤ limit) :
    (s.add n).EndsBy limit := by
  obtain ⟨opened, newest⟩ := s
  cases opened <;> simpa [EndsBy, add, modifyNewest, innermost] using h

theorem EndsBy.abandon
    (count : Nat)
    (h : s.EndsBy limit) :
    (s.abandon pos count).EndsBy limit := by
  induction count generalizing s with
  | zero =>
      exact h
  | succ count ih =>
      obtain ⟨opened, newest⟩ := s
      cases opened with
      | nil =>
          exact h
      | cons e outer =>
          exact ih (endsBy_add (by simp [OpenElement.close, Node.isText]))

theorem EndsBy.closeInnermost
    {stop : Nat}
    (h : s.EndsBy limit) :
    (s.closeInnermost pos stop).EndsBy limit := by
  obtain ⟨opened, newest⟩ := s
  cases opened with
  | nil =>
      exact h
  | cons e outer =>
      exact endsBy_add (by simp [OpenElement.close, Node.isText])

/-- Behind a piece of markup no text is extended. -/
theorem EndsBy.step_markup
    (h : s.EndsBy pos)
    (hraw : p.raw ≠ [])
    (hp : ∀ run, p ≠ .text run) :
    (s.step pos p).EndsBy (pos + p.raw.length - 1) := by
  have hlength := List.length_pos_iff.mpr hraw
  have hlater : s.EndsBy (pos + p.raw.length - 1) := h.mono (by omega)
  cases p with
  | skipped kind body =>
      exact hlater
  | cdata content =>
      apply endsBy_add
      intro _
      simp only [Node.stop, Piece.raw, List.length_append, Enclosure.terminator,
        List.length_cons, List.length_nil]
      omega
  | text run =>
      exact absurd rfl (hp run)
  | startTag tag =>
      cases hself : tag.selfClosing with
      | true =>
          simp only [step, hself, if_true]
          exact endsBy_add (by simp [Node.isText])
      | false =>
          simp [step, hself, EndsBy, innermost]
  | endTag tag =>
      simp only [step]
      cases depthOf? tag.name s.opened with
      | none =>
          exact hlater
      | some depth =>
          exact (hlater.abandon depth).closeInnermost

theorem EndsBy.step_text
    {run : List Char}
    (hclear : s.ClearAt pos) :
    (s.step pos (.text run)).EndsBy (pos + run.length) := by
  simp only [step, hclear run]
  exact endsBy_add (fun _ => Nat.le_refl _)

end Texts

/-- A bare tree is made by its pieces, one after the other. -/
theorem bare_run
    {ps : List Piece} {pos : Nat} {s : Spine}
    (hread : ReadBack ps)
    (hplain : PlainTexts ps)
    (hends : s.EndsBy pos)
    (hclear : s.ClearAt pos ∨ ∀ c ∈ (rawAll ps).head?, c = '<') :
    (s.run pos ps).bare = ps.foldl take s.bare := by
  -- Along the pieces: a plain text is followed by markup, and behind markup no text is extended.
  induction ps generalizing pos s with
  | nil =>
      rfl
  | cons p ps ih =>
      obtain ⟨hreading, htail⟩ := hread
      have hplain' : PlainTexts ps := fun run hrun => hplain run (List.mem_cons_of_mem p hrun)
      rw [run, List.foldl_cons]
      by_cases hp : ∃ run, p = .text run
      · obtain ⟨run, rfl⟩ := hp
        have hstart : s.ClearAt pos := by
          rcases hclear with hclear | hbracket
          · exact hclear
          · obtain ⟨c, t, ht⟩ := List.exists_cons_of_ne_nil hreading.raw_ne_nil
            have hc := hbracket c (by simp [ht])
            rw [Piece.raw] at ht
            exact absurd (by simp [ht, hc]) (hplain run (by simp))
        rw [← bare_step (fun _ _ => hstart)]
        exact ih htail hplain' (EndsBy.step_text hstart) (Or.inr hreading.head?_of_text)
      · have hmarkup : ∀ run, p ≠ .text run := fun run hrun => hp ⟨run, hrun⟩
        have hlength := List.length_pos_iff.mpr hreading.raw_ne_nil
        have hstep := hends.step_markup hreading.raw_ne_nil hmarkup
        rw [← bare_step (fun run hrun => absurd hrun (hmarkup run))]
        exact ih htail hplain' (hstep.mono (by omega)) (Or.inl (hstep.clearAt (by omega)))

/-- Other contents add the same to a bare tree. -/
theorem take_rewritten
    {p p' : Piece}
    (h : p.Rewritten p')
    (s : Spine) :
    s.take p' = s.take p := by
  cases h with
  | comment | instruction =>
      rfl
  | quoted name back =>
      simp [take, StartTag.ofBody_selfClosing, List.getLast?_append, List.getLast?_cons]

end Spine

/-- The bare tree of a text in which no plain text holds a `<`. -/
theorem exists_bare_of_pieces
    {source : List Char} {ps : List Piece}
    (h : pieces source = .ok ps)
    (hplain : PlainTexts ps) :
    ∃ tree, parse source = .ok tree ∧ tree.bare = (ps.foldl Spine.take Spine.empty).finish 0 := by
  obtain ⟨_, hread⟩ := pieces_eq_ok_iff_readBack.mp h
  have hends : Spine.empty.EndsBy 0 := by
    simp [Spine.EndsBy, Spine.innermost, Spine.empty]
  refine ⟨(Spine.empty.run 0 ps).finish source.length, by simp [parse, h, Except.map], ?_⟩
  rw [Spine.bare_finish, Spine.bare_run hread hplain hends (Or.inl fun _ => rfl)]
  rfl

theorem PlainTexts.rewritten
    {before after : List Piece} {p p' : Piece}
    (h : PlainTexts (before ++ p :: after))
    (hp : p.Rewritten p') :
    PlainTexts (before ++ p' :: after) := by
  intro run hrun
  rw [List.mem_append, List.mem_cons] at hrun
  rcases hrun with hrun | hrun | hrun
  · exact h run (by simp [hrun])
  · cases hp <;> cases hrun
  · exact h run (by simp [hrun])

/--
A text with something else inside a comment, an instruction or a quoted string is parsed into the
same bare tree.
-/
theorem parse_rewritten
    {source : List Char} {before after : List Piece} {p p' : Piece}
    (h : pieces source = .ok (before ++ p :: after))
    (hplain : PlainTexts (before ++ p :: after))
    (hp : p.Rewritten p') :
    ∃ tree tree',
      parse source = .ok tree ∧ parse (rawAll (before ++ p' :: after)) = .ok tree' ∧
      tree'.bare = tree.bare := by
  obtain ⟨_, hread⟩ := pieces_eq_ok_iff_readBack.mp h
  have h' := pieces_eq_ok_iff_readBack.mpr ⟨rfl, hread.rewritten hplain hp⟩
  obtain ⟨tree, hparse, hbare⟩ := exists_bare_of_pieces h hplain
  obtain ⟨tree', hparse', hbare'⟩ := exists_bare_of_pieces h' (hplain.rewritten hp)
  refine ⟨tree, tree', hparse, hparse', ?_⟩
  rw [hbare, hbare']
  simp only [List.foldl_append, List.foldl_cons, Spine.take_rewritten hp]

end Markup
end NuspecLint
