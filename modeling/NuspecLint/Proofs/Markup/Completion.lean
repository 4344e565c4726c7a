import NuspecLint.Proofs.Markup.Rewriting

/-!
# Texts whose last enclosure gets closed

A text fails to be parsed if it opens an enclosure and never closes it.  Here the missing closing
characters are appended to the text.

**Strategy.**  The scans of the two texts are compared piece by piece up to the enclosure.  What is
appended has neither a quote nor a `<`, and its only `>` stands at its end.  So a piece is read as
before, unless it was a half-written start tag that is now complete, and that one takes in
everything up to the new end.

**Results.**
* `splitTagEnd?_append_close` and `StartTag.read?_append_close`: a start tag that was refused is
  still refused, or ends with the text.
* `Piece.Reading.append_close` and `Scan.Run.append_close`: what a step, and so a run, makes of the
  longer text.
* `parse_append_terminator`: a text that fails is parsed once its enclosure is closed.
-/

namespace NuspecLint
namespace Text

/-- What follows a character outside a class does not belong to a run of the class before it. -/
theorem takeWhile_dropWhile_append
    {p : Char → Bool} {c : Char} {s : List Char} (v : List Char)
    (hmem : c ∈ s)
    (hc : p c = false) :
    (s ++ v).takeWhile p = s.takeWhile p ∧ (s ++ v).dropWhile p = s.dropWhile p ++ v := by
  have hnot : s.dropWhile p ≠ [] := by
    rw [ne_eq, List.dropWhile_eq_nil_iff, not_forall]
    exact ⟨c, by simp [hmem, hc]⟩
  have hhead : ∀ d ∈ (s.dropWhile p ++ v).head?, p d = false := by
    obtain ⟨d, t, hd⟩ := List.exists_cons_of_ne_nil hnot
    have hfirst := List.head?_dropWhile_not p s
    rw [hd] at hfirst ⊢
    simpa using hfirst
  have hboundary := takeWhile_dropWhile_of_boundary (u := s.takeWhile p)
    (fun d hd => List.mem_takeWhile_imp hd) hhead
  rwa [← List.append_assoc, List.takeWhile_append_dropWhile] at hboundary

end Text

namespace Markup

open Text

section Tags

variable {s front : List Char}

/-- Plain characters and a `>` end a tag with the `>`, or leave it open. -/
theorem splitTagEnd?_close
    (quote : Option Char)
    (hfront : ∀ c ∈ front, IsPlain c) :
    splitTagEnd? quote (front ++ ['>']) = none ∨
    splitTagEnd? quote (front ++ ['>']) = some (front, []) := by
  induction front generalizing quote with
  | nil =>
      cases quote <;> simp [splitTagEnd?]
  | cons c front ih =>
      obtain ⟨hquote, hlt, hgt⟩ := hfront c List.mem_cons_self
      have htail := fun quote => ih quote fun d hd => hfront d (List.mem_cons_of_mem c hd)
      cases quote with
      | none =>
          simpa [splitTagEnd?, hquote, hlt, hgt] using htail none
      | some quote =>
          simpa [splitTagEnd?] using htail (if c = quote then none else some quote)

/-- A tag without an end still has none, or ends with the appended `>`. -/
theorem splitTagEnd?_append_close
    {quote : Option Char}
    (hfront : ∀ c ∈ front, IsPlain c)
    (h : splitTagEnd? quote s = none) :
    splitTagEnd? quote (s ++ (front ++ ['>'])) = none ∨
    splitTagEnd? quote (s ++ (front ++ ['>'])) = some (s ++ front, []) := by
  induction s generalizing quote with
  | nil =>
      exact splitTagEnd?_close quote hfront
  | cons c s ih =>
      cases quote with
      | some quote =>
          simp only [splitTagEnd?, Option.map_eq_none_iff] at h
          simpa [splitTagEnd?] using ih h
      | none =>
          rw [splitTagEnd?] at h
          split at h
          · cases h
          · next hgt =>
              split at h
              · next hlt =>
                  left
                  simp [splitTagEnd?, hlt]
              · next hlt =>
                  simpa [splitTagEnd?, hgt, hlt] using ih (Option.map_eq_none_iff.mp h)

/-- A start tag that was refused is still refused, or ends with the text. -/
theorem StartTag.read?_append_close
    (hfront : ∀ c ∈ front, IsPlain c)
    (hmem : '<' ∈ s)
    (h : read? ('<' :: s) = none) :
    read? ('<' :: (s ++ (front ++ ['>']))) = none ∨
    ∃ tag, read? ('<' :: (s ++ (front ++ ['>']))) = some (tag, []) := by
  obtain ⟨htake, hdrop⟩ :=
    takeWhile_dropWhile_append (p := isTagNameChar) (front ++ ['>']) hmem (by decide)
  simp only [read?] at h
  split at h
  · next hempty =>
      left
      simp only [read?, htake, if_pos hempty]
  · next hname =>
      simp only [read?, htake, hdrop, if_neg hname]
      rcases splitTagEnd?_append_close hfront (Option.map_eq_none_iff.mp h) with hcut | hcut
      · left
        rw [hcut, Option.map_none]
      · right
        rw [hcut, Option.map_some]
        exact ⟨_, rfl⟩

/-- Whether an end tag is read is decided before the next `<`. -/
theorem EndTag.read?_append_eq_none
    (v : List Char)
    (hmem : '<' ∈ s)
    (h : read? ('<' :: '/' :: s) = none) :
    read? ('<' :: '/' :: (s ++ v)) = none := by
  rw [Option.eq_none_iff_forall_ne_some]
  rintro ⟨tag, rest⟩ hread
  obtain ⟨gap, hraw, _, hname, hgap⟩ := spelled_of_read? hread
  have happend : s ++ v = tag.name ++ (gap ++ ['>']) ++ rest := by
    have heq := eq_append_of_read? hread
    rw [hraw] at heq
    simpa using heq
  have hno : '<' ∉ tag.name ++ (gap ++ ['>']) := by
    simp only [List.mem_append, List.mem_singleton, not_or]
    refine ⟨fun hc => ?_, fun hc => ?_, by decide⟩
    · exact absurd (hname _ hc) (by decide)
    · exact absurd (hgap _ hc) (by decide)
  obtain ⟨after, rfl⟩ : ∃ after, rest = after ++ v := by
    rcases List.append_eq_append_iff.mp happend with ⟨more, htag, _⟩ | ⟨after, _, hrest⟩
    · exact absurd (htag ▸ List.mem_append_left more hmem) hno
    · exact ⟨after, hrest⟩
  rw [read?_of_append hread] at h
  cases h

end Tags

namespace Piece

variable {s rest front : List Char}

/-- Where no markup is read, none is read in the longer text, or a start tag up to its end. -/
theorem unread_append_close
    (hfront : ∀ c ∈ front, IsPlain c)
    (hmem : '<' ∈ s)
    (hopened : Enclosure.opened? ('<' :: s) = none)
    (htag : ofTag? ('<' :: s) = none) :
    (Enclosure.opened? ('<' :: (s ++ (front ++ ['>']))) = none ∧
      ofTag? ('<' :: (s ++ (front ++ ['>']))) = none) ∨
    ∃ p, Reading ('<' :: (s ++ (front ++ ['>']))) p [] := by
  obtain ⟨d, t, rfl⟩ := List.exists_cons_of_ne_nil (List.ne_nil_of_mem hmem)
  have hsecond : ∀ e, ['<', e] <+: '<' :: d :: t ↔ e = d := by
    intro e
    simp [List.cons_prefix_cons]
  have hmark : d ≠ '!' := fun hd =>
    Enclosure.not_prefix_of_opened?_eq_none hopened .declaration ((hsecond '!').mpr hd.symm)
  have hquery : d ≠ '?' := fun hd =>
    Enclosure.not_prefix_of_opened?_eq_none hopened .instruction ((hsecond '?').mpr hd.symm)
  have hnone := Enclosure.opened?_eq_none_of_second (s := t ++ (front ++ ['>'])) hmark hquery
  by_cases hd : d = '/'
  · subst hd
    have ht : '<' ∈ t := by simpa using hmem
    simp only [ofTag?, Option.map_eq_none_iff] at htag
    left
    refine ⟨hnone, ?_⟩
    simp only [List.cons_append, ofTag?, Option.map_eq_none_iff]
    exact EndTag.read?_append_eq_none _ ht htag
  · rw [ofTag?_of_ne_slash hd, Option.map_eq_none_iff] at htag
    rcases StartTag.read?_append_close hfront hmem htag with hread | ⟨tag, hread⟩
    · left
      refine ⟨hnone, ?_⟩
      rw [List.cons_append] at hread ⊢
      rw [ofTag?_of_ne_slash hd, hread, Option.map_none]
    · right
      exact ⟨_, Reading.startTag rfl hread⟩

/--
A piece before a `<` is read in the longer text as before, or the text now begins with a start tag
that takes all of it.
-/
theorem Reading.append_close
    {p : Piece}
    (h : Reading s p rest)
    (hfront : ∀ c ∈ front, IsPlain c)
    (hrest : '<' ∈ rest) :
    Reading (s ++ (front ++ ['>'])) p (rest ++ (front ++ ['>'])) ∨
    ∃ q, Reading (s ++ (front ++ ['>'])) q [] := by
  by_cases hp : ∃ run, p = .text run
  · obtain ⟨run, rfl⟩ := hp
    cases h with
    | @text c t hs hmarkup =>
        subst hs
        have hmem : '<' ∈ t := (List.dropWhile_suffix _).subset hrest
        obtain ⟨htake, hdrop⟩ :=
          takeWhile_dropWhile_append (p := (· != '<')) (front ++ ['>']) hmem (by decide)
        rw [← htake, ← hdrop]
        by_cases hc : c = '<'
        · subst hc
          obtain ⟨hopened, htag⟩ := hmarkup rfl
          rcases unread_append_close hfront hmem hopened htag with hunread | hwhole
          · exact Or.inl (Reading.text rfl fun _ => hunread)
          · exact Or.inr hwhole
        · exact Or.inl (Reading.text rfl fun h => absurd h hc)
  · exact Or.inl (h.append _ fun run hrun => hp ⟨run, hrun⟩)

end Piece

namespace Scan

variable {front : List Char}

theorem step_of_reading
    {s rest : List Char} {p : Piece} (pos : Nat) (spine : Spine)
    (h : Piece.Reading s p rest) :
    Step ⟨pos, s, spine⟩ p ⟨pos + p.raw.length, rest, spine.step pos p⟩ := by
  obtain ⟨c, s, rfl⟩ := List.exists_cons_of_ne_nil h.ne_nil
  exact Step.read (Piece.next_of_reading h)

/--
A run that stops before a `<` goes the same way through the longer text, unless the longer text is
read to its end.
-/
theorem Run.append_close
    {a b : Scan} {ps : List Piece}
    (h : Run a ps b)
    (hfront : ∀ c ∈ front, IsPlain c)
    (hmem : '<' ∈ b.rest) :
    Run ⟨a.pos, a.rest ++ (front ++ ['>']), a.spine⟩ ps
      ⟨b.pos, b.rest ++ (front ++ ['>']), b.spine⟩ ∨
    ∃ qs last,
      Run ⟨a.pos, a.rest ++ (front ++ ['>']), a.spine⟩ qs last ∧ last.rest = [] := by
  induction h with
  | refl a =>
      exact Or.inl (Run.refl _)
  | head hstep htail ih =>
      have hafter := htail.rest_eq ▸ List.mem_append_right _ hmem
      cases hstep with
      | @read pos _ _ _ _ spine hnext =>
          rcases (Piece.reading_of_next hnext).append_close hfront hafter with hread | ⟨q, hread⟩
          · have hstep' := step_of_reading pos spine hread
            rcases ih hmem with hsame | ⟨qs, last, hwhole, hlast⟩
            · exact Or.inl (Run.head hstep' hsame)
            · exact Or.inr ⟨_, last, Run.head hstep' hwhole, hlast⟩
          · exact Or.inr ⟨_, _, Run.head (step_of_reading pos spine hread) (Run.refl _), rfl⟩

end Scan

section Closing

namespace Enclosure

/-- An enclosure is closed by plain characters and a `>`. -/
theorem exists_terminator_eq (kind : Enclosure) :
    ∃ front, kind.terminator = front ++ ['>'] ∧ ∀ c ∈ front, IsPlain c := by
  have hplain : IsPlain '-' ∧ IsPlain ']' ∧ IsPlain '?' := by decide
  obtain ⟨hdash, hbracket, hquery⟩ := hplain
  cases kind with
  | comment =>
      exact ⟨['-', '-'], rfl, by simp [hdash]⟩
  | cdata =>
      exact ⟨[']', ']'], rfl, by simp [hbracket]⟩
  | instruction =>
      exact ⟨['?'], rfl, by simp [hquery]⟩
  | declaration =>
      exact ⟨[], rfl, by simp⟩

/-- Closing an enclosure does not make another one of it. -/
theorem Begins.append_terminator
    {kind : Enclosure} {s : List Char}
    (h : kind.Begins s) :
    kind.Begins (s ++ kind.terminator) := by
  obtain ⟨hopening, hother⟩ := h
  refine ⟨hopening.trans (List.prefix_append _ _), ?_⟩
  rintro rfl
  obtain ⟨hcomment, hcdata⟩ := hother rfl
  have hkeep : ∀ opening : List Char,
      '>' ∉ opening → ¬ opening <+: s → ¬ opening <+: s ++ ['>'] := by
    intro opening hno hnot hpre
    rcases List.prefix_concat_iff.mp hpre with rfl | hpre
    · exact hno (by simp)
    · exact hnot hpre
  exact ⟨hkeep _ (by decide) hcomment, hkeep _ (by decide) hcdata⟩

end Enclosure

/-- An enclosure that is never closed is read to the end once it is closed there. -/
theorem Piece.reading_append_terminator
    {kind : Enclosure} {s : List Char}
    (hbegins : kind.Begins s)
    (hunclosed : ¬ kind.terminator <:+: s.drop kind.searchStart) :
    ∃ p, Reading (s ++ kind.terminator) p [] := by
  obtain ⟨front, hfront, hplain⟩ := kind.exists_terminator_eq
  have hlast : '>' ∉ front := fun hmem => (hplain _ hmem).2.2 rfl
  have hopened := Enclosure.opened?_eq_some_iff.mpr hbegins.append_terminator
  have hcut : splitAt? kind.terminator (s.drop kind.searchStart ++ kind.terminator) =
      some (s.drop kind.searchStart, []) := by
    rw [hfront] at hunclosed ⊢
    simpa using splitAt?_append_of_not_infix [] hlast hunclosed
  cases kind with
  | cdata =>
      have hlength : Enclosure.cdata.opening.length ≤ s.length := hbegins.1.length_le
      rw [Enclosure.searchStart, ← List.drop_append_of_le_length hlength] at hcut
      exact ⟨_, Reading.cdata hopened hcut⟩
  | comment | instruction | declaration =>
      exact ⟨_, Reading.skipped hopened (by decide) hcut⟩

end Closing

/--
**Closing the enclosure mends the text.**  A text that fails to be parsed for an enclosure that it
never closes is parsed once the characters that close this kind of enclosure are appended.
-/
theorem parse_append_terminator
    {source : List Char} {u : Unterminated}
    (h : parse source = .error u) :
    ∃ tree, parse (source ++ u.kind.terminator) = .ok tree := by
  obtain ⟨⟨ps, a, hrun, hpos⟩, hbegins, hunclosed⟩ := parse_eq_error_iff_unterminatedAt.mp h
  rw [← List.drop_drop, ← hpos, hrun.of.drop_eq] at hunclosed
  rw [← hpos, hrun.of.drop_eq] at hbegins
  obtain ⟨t, ht⟩ := Enclosure.exists_cons_of_opened? (Enclosure.opened?_eq_some_iff.mpr hbegins)
  obtain ⟨p, hread⟩ := Piece.reading_append_terminator hbegins hunclosed
  obtain ⟨front, hfront, hplain⟩ := u.kind.exists_terminator_eq
  rw [hfront] at hread ⊢
  have hmem : '<' ∈ a.rest := by
    rw [ht]
    exact List.mem_cons_self
  rcases hrun.append_close hplain hmem with hsame | ⟨qs, last, hwhole, hlast⟩
  · exact ⟨_, parse_eq_ok_iff.mpr
      ⟨_, _, hsame.concat (Scan.step_of_reading a.pos a.spine hread), rfl, rfl⟩⟩
  · exact ⟨_, parse_eq_ok_iff.mpr ⟨qs, last, hwhole, hlast, rfl⟩⟩

/-- The end of a comment also ends the half-written tag whose quoted value holds the comment. -/
theorem parse_append_terminator_half_tag :
    parse "<a x='1<!-- '".toList = .error ⟨.comment, 7⟩ ∧
    ∃ tree, parse ("<a x='1<!-- '".toList ++ "-->".toList) = .ok tree := by
  have hparse : parse "<a x='1<!-- '".toList = .error ⟨.comment, 7⟩ := by
    with_unfolding_all rfl
  exact ⟨hparse, parse_append_terminator hparse⟩

end Markup
end NuspecLint
