import NuspecLint.Proofs.Markup.Rewriting
import NuspecLint.Proofs.Markup.Tiling

/-!
# Where comments end

The closing characters of a comment are searched from its very first character on, so that they may
share their hyphens with the opening ones.  A comment whose body begins with `>` or `->` ends there.

**View.**  The stretches of a tree are its texts, its tags and its attributes.  A comment that is
skipped whole lies between them.

**Results.**
* `Scan.Step.marks_cases`: what a step adds to the marks of a tree stands on the characters that it
  reads.
* `Scan.Run.stretches_le` and `Scan.Run.apart`: nothing stands behind the place of a scan, and
  nothing comes to stand on characters that a step has passed over.
* `continues_unique`: a scan goes on from each place in one way.
* `comment_skipped_iff`: which comments are skipped whole, and what a tree holds of these.
-/

namespace NuspecLint
namespace Markup

open Text

section Stretches

/-- An attribute stands inside the part of the tag that it is read from. -/
theorem attributesAt_within
    {offset : Nat} {part : List Char} {x : Attribute}
    (hx : x ∈ attributesAt offset part) :
    offset ≤ x.start ∧ x.stop ≤ offset + part.length := by
  fun_induction attributesAt offset part with
  | case1 offset =>
      cases hx
  | case2 offset c s hc found stop ih =>
      have hlength : (c :: s).length = found.1.raw.length + found.2.length :=
        (congrArg List.length (AttributeText.eq_append_of_read c s)).trans List.length_append
      have hstop : stop = offset + found.1.raw.length := rfl
      rcases List.mem_cons.mp hx with rfl | hx
      · exact ⟨le_rfl, by simp only; omega⟩
      · have hlater := ih hx
        omega
  | case3 offset c s hc ih =>
      have hlater := ih hx
      rw [List.length_cons]
      omega

/-- The stretches of text that a part of a tree stands on. -/
def Mark.stretches : Mark → List (Nat × Nat)
  | startTag heading =>
      (heading.start, heading.startTagEnd) ::
        heading.attributes.map fun x => (x.start, x.stop)
  | endTag start stop => [(start, stop)]
  | text start stop => [(start, stop)]

/-- The part stands outside the stretch `[lo, hi)` of the text, on whichever side. -/
def Mark.Apart (lo hi : Nat) (m : Mark) : Prop :=
  ∀ s ∈ m.stretches, s.2 ≤ lo ∨ hi ≤ s.1

namespace Scan

variable {a b : Scan} {p : Piece}

theorem Step.stretches_startTag
    {tag : StartTag}
    (h : Step a (.startTag tag) b) :
    ∃ m, b.spine.marks = a.spine.marks ++ [m] ∧
      ∀ s ∈ m.stretches, a.pos ≤ s.1 ∧ s.2 ≤ b.pos := by
  refine ⟨_, by rw [h.spine_eq]; exact Spine.marks_step_startTag a.pos tag a.spine, ?_⟩
  have hpos : b.pos = a.pos + tag.raw.length := h.pos_eq
  have hlength : 1 + tag.name.length + tag.attributePart.length ≤ tag.raw.length := by
    simp only [StartTag.raw, List.length_cons, List.length_append]
    omega
  intro s hs
  rcases List.mem_cons.mp hs with rfl | hs
  · exact ⟨le_rfl, hpos.ge⟩
  · obtain ⟨x, hx, rfl⟩ := List.mem_map.mp hs
    have hwithin := attributesAt_within hx
    exact ⟨by simp only; omega, by simp only; omega⟩

/--
A step adds one mark, on the characters it reads, or none; plain text may instead make the text
before it longer.
-/
theorem Step.marks_cases
    (h : Step a p b) :
    b.spine.marks = a.spine.marks ∨
    (∃ m, b.spine.marks = a.spine.marks ++ [m] ∧
      ∀ s ∈ m.stretches, a.pos ≤ s.1 ∧ s.2 ≤ b.pos) ∨
    ∃ front first,
      a.spine.marks = front ++ [.text first a.pos] ∧
      b.spine.marks = front ++ [.text first b.pos] := by
  cases p with
  | skipped kind body =>
      left
      rw [h.spine_eq]
      rfl
  | cdata content =>
      right; left
      refine ⟨_, by rw [h.spine_eq]; exact Spine.marks_add _ _, ?_⟩
      intro s hs
      cases List.mem_singleton.mp hs
      rw [h.pos_eq]
      simp only [Piece.raw, List.length_append]
      omega
  | startTag tag =>
      exact Or.inr (Or.inl h.stretches_startTag)
  | endTag tag =>
      cases hdepth : Spine.depthOf? tag.name a.spine.opened with
      | none =>
          left
          rw [h.spine_eq]
          simp [Spine.step, hdepth]
      | some depth =>
          right; left
          refine ⟨_, by rw [h.spine_eq]; exact Spine.marks_step_endTag a.pos hdepth, ?_⟩
          intro s hs
          cases List.mem_singleton.mp hs
          exact ⟨le_rfl, h.pos_eq.ge⟩
  | text run =>
      have hpos : b.pos = a.pos + run.length := h.pos_eq
      rw [h.spine_eq, hpos]
      right
      refine (Spine.marks_appendRun a.pos run a.spine).imp_left fun hmarks => ⟨_, hmarks, ?_⟩
      intro s hs
      cases List.mem_singleton.mp hs
      exact ⟨le_rfl, le_rfl⟩

/-- Nothing of a tree under construction stands behind the place of the scan. -/
theorem Run.stretches_le
    {source : List Char} {ps : List Piece}
    (h : Run (initial source) ps a) :
    ∀ m ∈ a.spine.marks, ∀ s ∈ m.stretches, s.2 ≤ a.pos := by
  refine h.invariant (fun a => ∀ m ∈ a.spine.marks, ∀ s ∈ m.stretches, s.2 ≤ a.pos) ?_ ?_
  · intro a b p hstep hold
    have hlt := hstep.pos_lt
    have hkept : ∀ m ∈ a.spine.marks, ∀ s ∈ m.stretches, s.2 ≤ b.pos :=
      fun m hm s hs => (hold m hm s hs).trans hlt.le
    rcases hstep.marks_cases with heq | ⟨added, heq, hadded⟩ | ⟨front, first, hfront, heq⟩
    · rw [heq]
      exact hkept
    · rw [heq, List.forall_mem_append, List.forall_mem_singleton]
      exact ⟨hkept, fun s hs => (hadded s hs).2⟩
    · rw [hfront, List.forall_mem_append] at hkept
      rw [heq, List.forall_mem_append, List.forall_mem_singleton]
      refine ⟨hkept.1, fun s hs => ?_⟩
      cases List.mem_singleton.mp hs
      exact le_rfl
  · intro m hm
    cases hm

/-- What stands outside a stretch that the scan has passed stays outside it. -/
theorem Step.apart
    {lo hi : Nat}
    (h : Step a p b)
    (hlt : lo < hi)
    (hpassed : hi ≤ a.pos)
    (hapart : ∀ m ∈ a.spine.marks, m.Apart lo hi) :
    ∀ m ∈ b.spine.marks, m.Apart lo hi := by
  rcases h.marks_cases with heq | ⟨added, heq, hadded⟩ | ⟨front, first, hfront, heq⟩
  · rw [heq]
    exact hapart
  · rw [heq, List.forall_mem_append, List.forall_mem_singleton]
    exact ⟨hapart, fun s hs => Or.inr (hpassed.trans (hadded s hs).1)⟩
  · rw [hfront, List.forall_mem_append, List.forall_mem_singleton] at hapart
    rw [heq, List.forall_mem_append, List.forall_mem_singleton]
    refine ⟨hapart.1, fun s hs => ?_⟩
    cases List.mem_singleton.mp hs
    -- The text that grows ends where the scan is, so that it has begun behind the stretch.
    have hlast := hapart.2 (first, a.pos) (List.mem_singleton.mpr rfl)
    simp only at hlast ⊢
    omega

theorem Run.apart
    {lo hi : Nat} {ps : List Piece}
    (h : Run a ps b)
    (hlt : lo < hi)
    (hpassed : hi ≤ a.pos)
    (hapart : ∀ m ∈ a.spine.marks, m.Apart lo hi) :
    ∀ m ∈ b.spine.marks, m.Apart lo hi := by
  have hinv := h.invariant (fun a => hi ≤ a.pos ∧ ∀ m ∈ a.spine.marks, m.Apart lo hi)
    (fun hstep hold =>
      ⟨hold.1.trans hstep.pos_lt.le, hstep.apart hlt hold.1 hold.2⟩)
    ⟨hpassed, hapart⟩
  exact hinv.2

end Scan

end Stretches

section Ends

variable {source : List Char} {n m : Nat}

/-- The scan of a text comes to the offset `n`, reads one piece there and goes on at `m`. -/
def Continues (source : List Char) (n m : Nat) : Prop :=
  ∃ ps p a b,
    Scan.Run (Scan.initial source) ps a ∧ a.pos = n ∧ Scan.Step a p b ∧ b.pos = m

/-- A scan goes on from each place in one way. -/
theorem continues_unique
    {m' : Nat}
    (h : Continues source n m)
    (h' : Continues source n m') :
    m = m' := by
  obtain ⟨ps, p, a, b, hrun, rfl, hstep, rfl⟩ := h
  obtain ⟨qs, q, a', b', hrun', hpos, hstep', rfl⟩ := h'
  cases hrun'.unique hrun hpos
  rw [(hstep.unique hstep').2]

/-- What is read at a place that the scan comes to. -/
theorem Reaches.step_of_reading
    {p : Piece} {rest : List Char}
    (h : Reaches source n)
    (hreading : Piece.Reading (source.drop n) p rest) :
    ∃ ps a b,
      Scan.Run (Scan.initial source) ps a ∧ a.pos = n ∧ Scan.Step a p b ∧
      b.pos = n + p.raw.length := by
  obtain ⟨ps, ⟨pos, left, spine⟩, hrun, rfl⟩ := h
  have hleft := hrun.of.drop_eq
  simp only at hleft hreading
  rw [hleft] at hreading
  obtain ⟨c, t, rfl⟩ := List.exists_cons_of_ne_nil hreading.ne_nil
  exact ⟨ps, _, _, hrun, rfl, Scan.Step.read (Piece.next_of_reading hreading), rfl⟩

theorem Reaches.continues
    {p : Piece} {rest : List Char}
    (h : Reaches source n)
    (hreading : Piece.Reading (source.drop n) p rest) :
    Continues source n (n + p.raw.length) := by
  obtain ⟨ps, a, b, hrun, hpos, hstep, hstop⟩ := h.step_of_reading hreading
  exact ⟨ps, p, a, b, hrun, hpos, hstep, hstop⟩

/-- A piece that is skipped leaves a gap between all parts of the tree. -/
theorem Reaches.apart_of_skipped
    {kind : Enclosure} {body rest : List Char} {tree : Node}
    (h : Reaches source n)
    (hreading : Piece.Reading (source.drop n) (.skipped kind body) rest)
    (hparse : parse source = .ok tree) :
    ∀ m ∈ tree.marks, m.Apart n (n + (body ++ kind.terminator).length) := by
  obtain ⟨ps, a, b, hrun, rfl, hstep, hstop⟩ := h.step_of_reading hreading
  have hlt := hstep.pos_lt
  have hbefore : ∀ m ∈ b.spine.marks, m.Apart a.pos b.pos := by
    intro m hm s hs
    rw [hstep.spine_eq] at hm
    exact Or.inl (hrun.stretches_le m hm s hs)
  obtain ⟨qs, last, hwhole, hrest, rfl⟩ := parse_eq_ok_iff.mp hparse
  rw [Spine.marks_finish]
  have hstopEq : a.pos + (body ++ kind.terminator).length = b.pos := hstop.symm
  rw [hstopEq]
  rcases hwhole.comparable (hrun.concat hstep) with ⟨rs, hrun'⟩ | ⟨rs, hrun'⟩
  · cases hrun' with
    | refl =>
        exact hbefore
    | head hnext _ =>
        cases hnext
        cases hrest
  · exact hrun'.apart hlt le_rfl hbefore

end Ends

section Comments

/-- The comment with the body `c`. -/
def comment (c : List Char) : List Char :=
  Enclosure.comment.opening ++ c ++ Enclosure.comment.terminator

/-- What may stand inside a comment: no two hyphens in a row, and no hyphen at the end. -/
structure CommentBody (c : List Char) : Prop where
  no_double_hyphen : ¬ ['-', '-'] <:+: c
  getLast?_ne : c.getLast? ≠ some '-'

instance : DecidablePred CommentBody :=
  fun c => decidable_of_iff (¬ ['-', '-'] <:+: c ∧ c.getLast? ≠ some '-')
    ⟨fun h => ⟨h.1, h.2⟩, fun h => ⟨h.1, h.2⟩⟩

/-- Together with the hyphens of the opening, the body begins with the end of a comment. -/
def EndsEarly (c : List Char) : Prop :=
  ['>'] <+: c ∨ ['-', '>'] <+: c

instance : DecidablePred EndsEarly :=
  fun c => inferInstanceAs (Decidable (['>'] <+: c ∨ ['-', '>'] <+: c))

variable {c : List Char}

/-- Only the beginning of its body can end a comment early. -/
theorem reading_comment_whole
    (v : List Char)
    (hbody : CommentBody c)
    (hearly : ¬ EndsEarly c) :
    Piece.Reading (comment c ++ v) (.skipped .comment (Enclosure.comment.opening ++ c)) v := by
  apply Piece.reading_comment v
  intro hinfix
  simp only [List.cons_append, List.nil_append, List.infix_cons_iff] at hinfix
  rcases hinfix with hinfix | hinfix | hinfix
  · rw [List.cons_prefix_cons, List.cons_prefix_cons] at hinfix
    exact hearly (Or.inl hinfix.2.2)
  · rw [List.cons_prefix_cons] at hinfix
    exact hearly (Or.inr hinfix.2)
  · exact hbody.no_double_hyphen ((List.infix_append' [] ['-', '-'] ['>']).trans hinfix)

/-- A body that begins with `>` ends the comment with the hyphens of the opening. -/
theorem reading_comment_gt (c v : List Char) :
    Piece.Reading (comment ('>' :: c) ++ v) (.skipped .comment ['<', '!'])
      (c ++ (Enclosure.comment.terminator ++ v)) := by
  refine Piece.Reading.skipped rfl (by decide) ?_
  simp [comment, Enclosure.opening, Enclosure.terminator, splitAt?, List.isPrefixOf]

/-- One that begins with `->` ends it with one of them. -/
theorem reading_comment_hyphen_gt (c v : List Char) :
    Piece.Reading (comment ('-' :: '>' :: c) ++ v) (.skipped .comment ['<', '!', '-'])
      (c ++ (Enclosure.comment.terminator ++ v)) := by
  refine Piece.Reading.skipped rfl (by decide) ?_
  simp [comment, Enclosure.opening, Enclosure.terminator, splitAt?, List.isPrefixOf]

/--
**Which comments are skipped whole.**  A comment that the scan comes to is passed over up to its end
exactly if its body begins neither with `>` nor with `->`; otherwise the scan goes on right behind
these characters.  No part of the tree stands on a character of a comment that is skipped whole.
-/
theorem comment_skipped_iff
    {u c v : List Char}
    (hbody : CommentBody c)
    (hreached : Reaches (u ++ (comment c ++ v)) u.length) :
    (Continues (u ++ (comment c ++ v)) u.length (u.length + c.length + 7) ↔ ¬ EndsEarly c) ∧
    (['>'] <+: c → Continues (u ++ (comment c ++ v)) u.length (u.length + 5)) ∧
    (['-', '>'] <+: c → Continues (u ++ (comment c ++ v)) u.length (u.length + 6)) ∧
    (¬ EndsEarly c → ∀ tree, parse (u ++ (comment c ++ v)) = .ok tree →
      ∀ m ∈ tree.marks, m.Apart u.length (u.length + c.length + 7)) := by
  have hdrop : (u ++ (comment c ++ v)).drop u.length = comment c ++ v := List.drop_left
  have hgt : ['>'] <+: c → Continues (u ++ (comment c ++ v)) u.length (u.length + 5) := by
    rintro ⟨c, rfl⟩
    exact hreached.continues (hdrop ▸ reading_comment_gt c v)
  have hhyphen : ['-', '>'] <+: c →
      Continues (u ++ (comment c ++ v)) u.length (u.length + 6) := by
    rintro ⟨c, rfl⟩
    exact hreached.continues (hdrop ▸ reading_comment_hyphen_gt c v)
  have hlength : u.length + c.length + 7 =
      u.length + (Enclosure.comment.opening ++ c ++ Enclosure.comment.terminator).length := by
    simp only [Enclosure.opening, Enclosure.terminator, List.length_append, List.length_cons,
      List.length_nil]
    omega
  refine ⟨⟨?_, ?_⟩, hgt, hhyphen, ?_⟩
  · rintro hwhole (hearly | hearly)
    · have hsame := continues_unique hwhole (hgt hearly)
      omega
    · have hsame := continues_unique hwhole (hhyphen hearly)
      omega
  · intro hearly
    rw [hlength]
    exact hreached.continues (hdrop ▸ reading_comment_whole v hbody hearly)
  · intro hearly tree hparse
    rw [hlength]
    exact hreached.apart_of_skipped (hdrop ▸ reading_comment_whole v hbody hearly) hparse

/-- A hyphen, a tag and an arrow inside a comment do not end it. -/
theorem comment_skipped_iff_arrow :
    ∃ u c v tree,
      u = "<a>x".toList ∧ c = "- <b d='tag1'> -> ".toList ∧ v = "y".toList ∧
      CommentBody c ∧ Reaches (u ++ (comment c ++ v)) u.length ∧ ¬ EndsEarly c ∧
      parse (u ++ (comment c ++ v)) = .ok tree ∧
      Continues (u ++ (comment c ++ v)) u.length (u.length + c.length + 7) ∧
      ∀ m ∈ tree.marks, m.Apart u.length (u.length + c.length + 7) := by
  have hbody : CommentBody "- <b d='tag1'> -> ".toList := by decide
  have hearly : ¬ EndsEarly "- <b d='tag1'> -> ".toList := by decide
  have hreached : Reaches ("<a>x".toList ++ (comment "- <b d='tag1'> -> ".toList ++ "y".toList))
      "<a>x".toList.length :=
    ⟨[.startTag ⟨['a'], [], false⟩, .text ['x']], _,
      .head (.read (by with_unfolding_all rfl)) (.head (.read rfl) (.refl _)), rfl⟩
  have hparse : parse ("<a>x".toList ++ (comment "- <b d='tag1'> -> ".toList ++ "y".toList)) =
      .ok (.document 30 [.element ⟨['a'], [], 0, 3, none, 30, false⟩
        [.text 3 4 ['x'], .text 29 30 ['y']]]) := by
    with_unfolding_all rfl
  obtain ⟨hwhole, _, _, hapart⟩ := comment_skipped_iff hbody hreached
  exact ⟨_, _, _, _, rfl, rfl, rfl, hbody, hreached, hearly, hparse, hwhole.mpr hearly,
    hapart hearly _ hparse⟩

/-- A comment whose body begins with `>` ends there, and the rest of it becomes a text. -/
theorem comment_not_skipped :
    ∃ u c v,
      u = [] ∧ c = ">tag1".toList ∧ v = [] ∧
      CommentBody c ∧ Reaches (u ++ (comment c ++ v)) u.length ∧
      ¬ Continues (u ++ (comment c ++ v)) u.length (u.length + c.length + 7) ∧
      parse (u ++ (comment c ++ v)) = .ok (.document 12 [.text 5 12 "tag1-->".toList]) := by
  have hreached : Reaches (comment ">tag1".toList ++ []) 0 := ⟨[], _, .refl _, rfl⟩
  refine ⟨_, _, _, rfl, rfl, rfl, by decide, hreached, ?_, by with_unfolding_all rfl⟩
  intro hwhole
  have hearly := hreached.continues (reading_comment_gt "tag1".toList [])
  exact absurd (continues_unique hwhole hearly) (by decide)

end Comments

end Markup
end NuspecLint
