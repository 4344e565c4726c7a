import NuspecLint.Proofs.Markup.Pattern
import NuspecLint.Proofs.Markup.Scan

/-!
# Enclosures that are never closed

The one way in which a text fails to be parsed, and what can be said of the text before it.

**Condition.**  The scan comes to an offset at which an enclosure begins whose closing characters
do not occur from there on; those of a CDATA section are looked for behind its opening.

**Results.**
* `Piece.Reading.of_append`: what stands behind a piece and the text after it does not decide how
  the piece is read.
* `Scan.Run.of_append`: a scan takes the same way if the text is cut off where it ends.
* `parse_fails_iff_unterminated`: a text fails to be parsed exactly there, and what stands before
  is parsed.
-/

namespace NuspecLint
namespace Text

/-- A text that does not occur is not found. -/
theorem splitAt?_eq_none_iff
    {t s : List Char} :
    splitAt? t s = none ↔ ¬ t <:+: s := by
  induction s with
  | nil =>
      simp [splitAt?, List.isEmpty_iff]
  | cons c s ih =>
      simp only [splitAt?, List.infix_cons_iff, not_or, ← List.isPrefixOf_iff_prefix]
      split
      · next hpre =>
          simp [hpre]
      · next hpre =>
          simp [hpre, ih]

section Cut

variable {s rest v : List Char}

/-- What stands behind a cut does not decide what is found before it. -/
theorem splitAt?_of_append
    {t before : List Char}
    (h : splitAt? t (s ++ v) = some (before, rest ++ v)) :
    splitAt? t s = some (before, rest) := by
  have hs : s = before ++ t ++ rest := by
    have happend := eq_append_of_splitAt? h
    rw [← List.append_assoc] at happend
    exact List.append_cancel_right happend
  induction s generalizing before with
  | nil =>
      simp_all [splitAt?, List.nil_eq]
  | cons c s ih =>
      rw [List.cons_append, splitAt?] at h
      split at h
      · simp only [Option.some.injEq, Prod.mk.injEq] at h
        obtain ⟨rfl, _⟩ := h
        have hpre : t <+: c :: s := ⟨rest, hs.symm⟩
        rw [splitAt?, if_pos (List.isPrefixOf_iff_prefix.mpr hpre), hs]
        simp
      · next hnot =>
          obtain ⟨⟨front, after⟩, hcut, heq⟩ := Option.map_eq_some_iff.mp h
          simp only [Prod.mk.injEq] at heq
          obtain ⟨rfl, rfl⟩ := heq
          have hshort : ¬ t.isPrefixOf (c :: s) = true := by
            intro hpre
            exact hnot (List.isPrefixOf_iff_prefix.mpr
              ((List.isPrefixOf_iff_prefix.mp hpre).trans (List.prefix_append (c :: s) v)))
          simp only [List.cons_append, List.cons.injEq, true_and] at hs
          rw [splitAt?, if_neg hshort, ih hcut hs]
          rfl

theorem takeWhile_dropWhile_of_append
    {p : Char → Bool}
    (h : (s ++ v).dropWhile p = rest ++ v) :
    s.takeWhile p = (s ++ v).takeWhile p ∧ s.dropWhile p = rest := by
  have hs : s = (s ++ v).takeWhile p ++ rest := by
    have happend := List.takeWhile_append_dropWhile (p := p) (l := s ++ v)
    rw [h, ← List.append_assoc] at happend
    exact (List.append_cancel_right happend).symm
  have hhead : ∀ c ∈ rest.head?, p c = false := by
    intro c hc
    cases rest with
    | nil =>
        simp at hc
    | cons d rest =>
        simp only [List.head?_cons, Option.mem_some_iff] at hc
        subst hc
        have hdrop := List.head?_dropWhile_not p (s ++ v)
        rw [h] at hdrop
        simpa using hdrop
  have hboundary :=
    takeWhile_dropWhile_of_boundary (u := (s ++ v).takeWhile p) (v := rest)
      (fun c hc => List.mem_takeWhile_imp hc) hhead
  rwa [← hs] at hboundary

end Cut

end Text
namespace Markup

open Text

section Cut

variable {s rest v : List Char}

theorem splitTagEnd?_of_append
    {quote : Option Char} {before : List Char}
    (h : splitTagEnd? quote (s ++ v) = some (before, rest ++ v)) :
    splitTagEnd? quote s = some (before, rest) := by
  induction s generalizing quote before with
  | nil =>
      have hlength := congrArg List.length (eq_append_of_splitTagEnd? h)
      simp only [List.nil_append, List.length_append, List.length_cons] at hlength
      omega
  | cons c s ih =>
      cases quote with
      | some quote =>
          simp only [List.cons_append, splitTagEnd?] at h ⊢
          obtain ⟨⟨front, after⟩, hcut, heq⟩ := Option.map_eq_some_iff.mp h
          simp only [Prod.mk.injEq] at heq
          obtain ⟨rfl, rfl⟩ := heq
          rw [ih hcut]
          rfl
      | none =>
          simp only [List.cons_append, splitTagEnd?] at h ⊢
          split at h
          · next hc =>
              simp only [Option.some.injEq, Prod.mk.injEq] at h
              simp [hc, ← h.1, List.append_cancel_right h.2]
          · next hgt =>
              split at h
              · simp at h
              · next hlt =>
                  obtain ⟨⟨front, after⟩, hcut, heq⟩ := Option.map_eq_some_iff.mp h
                  simp only [Prod.mk.injEq] at heq
                  obtain ⟨rfl, rfl⟩ := heq
                  rw [if_neg hgt, if_neg hlt, ih hcut]
                  rfl

theorem StartTag.read?_of_append
    {tag : StartTag}
    (h : read? ('<' :: (s ++ v)) = some (tag, rest ++ v)) :
    read? ('<' :: s) = some (tag, rest) := by
  simp only [read?] at h ⊢
  split at h
  · simp at h
  · next hne =>
      obtain ⟨⟨body, after⟩, hcut, heq⟩ := Option.map_eq_some_iff.mp h
      simp only [Prod.mk.injEq] at heq
      obtain ⟨rfl, rfl⟩ := heq
      have hbody := eq_append_of_splitTagEnd? hcut
      rw [← List.cons_append, ← List.append_assoc] at hbody
      obtain ⟨htake, hdrop⟩ := takeWhile_dropWhile_of_append hbody
      have hsplit : splitTagEnd? none (s.dropWhile isTagNameChar) = some (body, rest) := by
        rw [hdrop]
        apply splitTagEnd?_of_append (v := v)
        rw [← hbody, hcut]
      rw [htake, if_neg hne, hsplit]
      rfl

theorem EndTag.read?_of_append
    {tag : EndTag}
    (h : read? ('<' :: '/' :: (s ++ v)) = some (tag, rest ++ v)) :
    read? ('<' :: '/' :: s) = some (tag, rest) := by
  have hraw := eq_append_of_read? h
  obtain ⟨gap, hgap, hne, hname, hblank⟩ := spelled_of_read? h
  obtain rfl : tag.gap = gap := by
    simpa [raw] using hgap
  have happend : s ++ v = tag.name ++ (tag.gap ++ '>' :: rest) ++ v := by
    simpa [raw] using hraw
  have hs := List.append_cancel_right happend
  rw [hs]
  exact read?_append tag.gap rest hne hname hblank

end Cut

theorem BeginsMarkup.append
    {s : List Char} (v : List Char)
    (h : BeginsMarkup s) :
    BeginsMarkup (s ++ v) := by
  rcases h with ⟨kind, hkind⟩ | ⟨name, tag, rest, rfl, htag⟩ | ⟨name, tag, rest, rfl, htag⟩
  · exact Or.inl ⟨kind, hkind.trans (List.prefix_append s v)⟩
  · exact Or.inr (Or.inl ⟨name, tag, rest ++ v, List.append_assoc .., htag⟩)
  · exact Or.inr (Or.inr ⟨name, tag, rest ++ v, List.append_assoc .., htag⟩)

namespace Piece

/-- Where no markup stands, none is read. -/
theorem unread_of_not_beginsMarkup
    {s : List Char}
    (h : ¬ BeginsMarkup ('<' :: s)) :
    Enclosure.opened? ('<' :: s) = none ∧ ofTag? ('<' :: s) = none := by
  constructor
  · rw [Option.eq_none_iff_forall_ne_some]
    intro kind hopened
    exact h (Or.inl ⟨kind, List.isPrefixOf_iff_prefix.mp (Enclosure.isPrefixOf_of_opened? hopened)⟩)
  · rw [Option.eq_none_iff_forall_ne_some]
    rintro ⟨p, rest⟩ htag
    apply h
    cases reading_of_ofTag? htag with
    | skipped hopened _ _ | cdata hopened _ =>
        exact Or.inl ⟨_, List.isPrefixOf_iff_prefix.mp (Enclosure.isPrefixOf_of_opened? hopened)⟩
    | endTag hs hread =>
        rw [hs] at hread ⊢
        exact Or.inr (Or.inl ⟨_, _, rest, EndTag.eq_append_of_read? hread,
          EndTag.spelled_of_read? hread⟩)
    | startTag hs hread =>
        exact Or.inr (Or.inr ⟨_, _, rest, StartTag.eq_append_of_read? hread,
          StartTag.spelled_of_read? hread⟩)
    | text hs hmarkup =>
        obtain ⟨rfl, rfl⟩ := List.cons.inj hs
        rw [(hmarkup rfl).2] at htag
        cases htag

/-- What stands behind a piece and the text after it does not decide how the piece is read. -/
theorem Reading.of_append
    {s rest v : List Char} {p : Piece}
    (hs : s ≠ [])
    (h : Reading (s ++ v) p (rest ++ v)) :
    Reading s p rest := by
  obtain ⟨c, s, rfl⟩ := List.exists_cons_of_ne_nil hs
  have hraw : c :: s = p.raw ++ rest := by
    have happend := raw_append_of_next (next_of_reading h)
    rw [← List.append_assoc] at happend
    exact (List.append_cancel_right happend).symm
  have hpre : c :: s <+: c :: s ++ v := List.prefix_append (c :: s) v
  generalize hr : rest ++ v = r at h
  cases h with
  | @skipped kind body _ hopened hkind hcut =>
      have hopen := List.isPrefixOf_iff_prefix.mp (Enclosure.isPrefixOf_of_opened? hopened)
      have hlength := Enclosure.opening_length_le hopen
        (by rw [eq_append_of_splitAt? hcut, List.append_assoc]) hkind
      rw [← hr] at hcut
      refine Reading.skipped (Enclosure.opened?_of_prefix hopened hpre ?_) hkind
        (splitAt?_of_append hcut)
      rw [hraw, raw, List.length_append]
      omega
  | @cdata content _ hopened hcut =>
      have hlength : Enclosure.cdata.opening.length ≤ (c :: s).length := by
        simp [hraw, raw]
      rw [List.drop_append_of_le_length hlength, ← hr] at hcut
      exact Reading.cdata (Enclosure.opened?_of_prefix hopened hpre hlength)
        (splitAt?_of_append hcut)
  | endTag hs hread =>
      rw [raw, EndTag.raw] at hraw
      obtain ⟨t, ht⟩ : ∃ t, c :: s = '<' :: '/' :: t := ⟨_, hraw⟩
      rw [ht, ← hr] at hread
      rw [ht]
      exact Reading.endTag rfl (EndTag.read?_of_append hread)
  | startTag hs hread =>
      rw [raw, StartTag.raw] at hraw
      obtain ⟨t, ht⟩ : ∃ t, c :: s = '<' :: t := ⟨_, hraw⟩
      rw [ht, ← hr] at hread
      rw [ht]
      exact Reading.startTag rfl (StartTag.read?_of_append hread)
  | @text d t hs hmarkup =>
      obtain ⟨rfl, ht⟩ := List.cons.inj hs
      rw [List.append_eq] at ht
      subst ht
      obtain ⟨htake, rfl⟩ := takeWhile_dropWhile_of_append hr.symm
      rw [← htake]
      refine Reading.text rfl ?_
      rintro rfl
      obtain ⟨hopened, htag⟩ := hmarkup rfl
      apply unread_of_not_beginsMarkup
      intro hbegins
      exact not_beginsMarkup hopened htag (hbegins.append v)

end Piece

namespace Scan

theorem Run.rest_eq
    {a b : Scan} {ps : List Piece}
    (h : Run a ps b) :
    a.rest = rawAll ps ++ b.rest := by
  induction h with
  | refl a =>
      rfl
  | head hstep _ ih =>
      rw [hstep.rest_eq, ih, rawAll_cons, List.append_assoc]

/-- A run takes the same way if the text is cut off where the run ends. -/
theorem Run.of_append
    {pos : Nat} {s v : List Char} {spine : Spine} {ps : List Piece} {b : Scan}
    (h : Run ⟨pos, s ++ v, spine⟩ ps b)
    (hrest : b.rest = v) :
    Run ⟨pos, s, spine⟩ ps ⟨b.pos, [], b.spine⟩ := by
  have hs : s = rawAll ps := by
    have hrest' := h.rest_eq
    rw [hrest] at hrest'
    exact List.append_cancel_right hrest'
  induction ps generalizing pos s spine with
  | nil =>
      cases h
      subst hs
      exact Run.refl _
  | cons p ps ih =>
      cases h with
      | head hstep htail =>
          have hne : s ≠ [] := by
            rw [hs, rawAll_cons]
            exact List.append_ne_nil_of_left_ne_nil hstep.raw_ne_nil _
          have hmid := htail.rest_eq
          rw [hrest] at hmid
          generalize hsource : s ++ v = source at hstep
          cases hstep with
          | @read _ _ _ rest _ _ hnext =>
              obtain rfl : rest = rawAll ps ++ v := hmid
              have hreading := Piece.reading_of_next hnext
              rw [← hsource] at hreading
              have hcut := hreading.of_append hne
              obtain ⟨c, s, rfl⟩ := List.exists_cons_of_ne_nil hne
              exact Run.head (Step.read (Piece.next_of_reading hcut)) (ih htail rfl)

end Scan

section Failure

namespace Enclosure

/-- The text begins an enclosure of this kind; a declaration is any `<!` that is nothing else. -/
def Begins (kind : Enclosure) (s : List Char) : Prop :=
  kind.opening <+: s ∧
    (kind = .declaration → ¬ comment.opening <+: s ∧ ¬ cdata.opening <+: s)

/-- How far behind the start of an enclosure its closing characters are looked for. -/
def searchStart : Enclosure → Nat
  | cdata => cdata.opening.length
  | _ => 0

theorem opened?_eq_some_iff
    {kind : Enclosure} {s : List Char} :
    opened? s = some kind ↔ kind.Begins s := by
  constructor
  · intro h
    refine ⟨List.isPrefixOf_iff_prefix.mp (isPrefixOf_of_opened? h), ?_⟩
    rintro rfl
    simp only [opened?, ← List.isPrefixOf_iff_prefix] at h ⊢
    grind
  · rintro ⟨hopening, hother⟩
    cases kind with
    | declaration =>
        obtain ⟨hcomment, hcdata⟩ := hother rfl
        obtain ⟨t, rfl⟩ := hopening
        rw [← List.isPrefixOf_iff_prefix, Bool.not_eq_true] at hcomment hcdata
        simp only [opened?, List.find?_cons, hcomment, hcdata]
        simp [opening, List.isPrefixOf]
    | comment | cdata | instruction =>
        obtain ⟨t, rfl⟩ := hopening
        simp [opened?, opening]

end Enclosure

theorem Piece.ofEnclosure?_eq_none_iff
    {kind : Enclosure} {s : List Char} :
    ofEnclosure? kind s = none ↔ ¬ kind.terminator <:+: s.drop kind.searchStart := by
  cases kind <;>
    simp only [ofEnclosure?, Option.map_eq_none_iff, splitAt?_eq_none_iff,
      Enclosure.searchStart, List.drop_zero]

theorem Piece.next_eq_error_iff
    {c : Char} {s : List Char} {kind : Enclosure} :
    next c s = .error kind ↔
      kind.Begins (c :: s) ∧
        ¬ kind.terminator <:+: (c :: s).drop kind.searchStart := by
  rw [← Enclosure.opened?_eq_some_iff]
  cases hopened : Enclosure.opened? (c :: s) with
  | none =>
      simp only [next, hopened, reduceCtorEq, false_and, iff_false]
      split <;> simp
  | some other =>
      rw [next_of_opened? hopened, ← ofEnclosure?_eq_none_iff, Option.some.injEq]
      cases hfound : ofEnclosure? other (c :: s) with
      | none =>
          simp only [Option.map_none, Option.getD_none, Except.error.injEq]
          constructor
          · rintro rfl
            exact ⟨rfl, hfound⟩
          · exact And.left
      | some found =>
          simp only [Option.map_some, Option.getD_some, reduceCtorEq, false_iff, not_and]
          rintro rfl hnone
          rw [hfound] at hnone
          cases hnone

theorem run_of_piecesAt_error
    {pos : Nat} {s : List Char} {u : Unterminated}
    (spine : Spine)
    (h : piecesAt pos s = .error u) :
    ∃ ps a c t,
      Scan.Run ⟨pos, s, spine⟩ ps a ∧ a.pos = u.offset ∧ a.rest = c :: t ∧
      Piece.next c t = .error u.kind := by
  fun_induction piecesAt pos s generalizing spine with
  | case1 pos =>
      cases h
  | case2 pos c s kind hnext =>
      cases h
      exact ⟨[], _, c, s, Scan.Run.refl _, rfl, rfl, hnext⟩
  | case3 pos c s p rest hnext ih =>
      have htail : piecesAt (pos + p.raw.length) rest = .error u := by
        cases hrest : piecesAt (pos + p.raw.length) rest with
        | ok ps =>
            simp [hrest, Except.map] at h
        | error u' =>
            simpa [hrest, Except.map] using h
      obtain ⟨ps, a, d, t, hrun, hpos, hrest, hstop⟩ := ih (spine.step pos p) htail
      exact ⟨p :: ps, a, d, t, Scan.Run.head (Scan.Step.read hnext) hrun, hpos, hrest, hstop⟩

theorem piecesAt_of_run_error
    {a b : Scan} {ps : List Piece} {c : Char} {t : List Char} {kind : Enclosure}
    (hrun : Scan.Run a ps b)
    (hrest : b.rest = c :: t)
    (hstop : Piece.next c t = .error kind) :
    piecesAt a.pos a.rest = .error ⟨kind, b.pos⟩ := by
  induction hrun with
  | refl a =>
      rw [hrest, piecesAt]
      split
      · next herror =>
          rw [hstop] at herror
          cases herror
          rfl
      · next hok =>
          rw [hstop] at hok
          cases hok
  | head hstep _ ih =>
      have htail := ih hrest
      cases hstep with
      | read hnext =>
          rw [piecesAt_cons_of_next _ hnext, htail]
          rfl

theorem parse_eq_error_iff_pieces
    {source : List Char} {u : Unterminated} :
    parse source = .error u ↔ pieces source = .error u := by
  cases h : pieces source with
  | ok ps =>
      simp [parse, h, Except.map]
  | error u' =>
      simp [parse, h, Except.map]

end Failure

/-- The scan of a text comes to this offset. -/
def Reaches (source : List Char) (n : Nat) : Prop :=
  ∃ ps a, Scan.Run (Scan.initial source) ps a ∧ a.pos = n

/-- The scan of a text comes to an enclosure that the text never closes. -/
structure UnterminatedAt (source : List Char) (u : Unterminated) : Prop where
  reached : Reaches source u.offset
  begins : u.kind.Begins (source.drop u.offset)
  unclosed : ¬ u.kind.terminator <:+: source.drop (u.offset + u.kind.searchStart)

theorem parse_eq_error_iff_unterminatedAt
    {source : List Char} {u : Unterminated} :
    parse source = .error u ↔ UnterminatedAt source u := by
  rw [parse_eq_error_iff_pieces]
  constructor
  · intro h
    obtain ⟨ps, a, c, t, hrun, hpos, hrest, hstop⟩ := run_of_piecesAt_error Spine.empty h
    have hdrop : source.drop u.offset = c :: t := by
      rw [← hpos, hrun.of.drop_eq, hrest]
    obtain ⟨hbegins, hunclosed⟩ := Piece.next_eq_error_iff.mp hstop
    rw [← hdrop] at hbegins hunclosed
    rw [List.drop_drop] at hunclosed
    exact ⟨⟨ps, a, hrun, hpos⟩, hbegins, hunclosed⟩
  · rintro ⟨⟨ps, a, hrun, hpos⟩, hbegins, hunclosed⟩
    obtain ⟨kind, offset⟩ := u
    subst hpos
    rw [← List.drop_drop, hrun.of.drop_eq] at hunclosed
    rw [hrun.of.drop_eq] at hbegins
    obtain ⟨t, ht⟩ := Enclosure.exists_cons_of_opened? (Enclosure.opened?_eq_some_iff.mpr hbegins)
    rw [ht] at hbegins hunclosed
    exact piecesAt_of_run_error hrun ht (Piece.next_eq_error_iff.mpr ⟨hbegins, hunclosed⟩)

/-- What stands before the place at which a scan comes to a stop is parsed by the same scan. -/
theorem exists_parse_take
    {source : List Char} {n : Nat}
    (h : Reaches source n) :
    ∃ tree, parse (source.take n) = .ok tree := by
  obtain ⟨ps, a, hrun, rfl⟩ := h
  have hcut : Scan.Run (Scan.initial (source.take a.pos)) ps ⟨a.pos, [], a.spine⟩ := by
    apply Scan.Run.of_append (v := source.drop a.pos)
    · rw [List.take_append_drop]
      exact hrun
    · exact hrun.of.drop_eq.symm
  exact ⟨_, parse_eq_ok_iff.mpr ⟨ps, _, hcut, rfl, rfl⟩⟩

/--
**When parsing fails.**  A text fails to be parsed exactly where the scan comes to an enclosure
that is never closed; the message names its kind and offset, every other text is parsed, and so is
what stands before the enclosure.
-/
theorem parse_fails_iff_unterminated (source : List Char) :
    (∀ u, parse source = .error u ↔ UnterminatedAt source u) ∧
    ((∃ tree, parse source = .ok tree) ↔ ∀ u, ¬ UnterminatedAt source u) ∧
    (∀ u, UnterminatedAt source u →
      u.message = "Unterminated " ++ u.kind.label ++ " at offset " ++ toString u.offset ∧
      ∃ tree, parse (source.take u.offset) = .ok tree) := by
  refine ⟨fun u => parse_eq_error_iff_unterminatedAt, ?_, ?_⟩
  · constructor
    · rintro ⟨tree, htree⟩ u hu
      rw [parse_eq_error_iff_unterminatedAt.mpr hu] at htree
      cases htree
    · intro hnone
      cases hparse : parse source with
      | ok tree =>
          exact ⟨tree, rfl⟩
      | error u =>
          exact absurd (parse_eq_error_iff_unterminatedAt.mp hparse) (hnone u)
  · intro u hu
    exact ⟨rfl, exists_parse_take hu.reached⟩

/-- A tag that looks for its quote beyond the comment is no tag, with or without the comment. -/
theorem parse_fails_iff_unterminated_quote :
    UnterminatedAt "<a x='1<!-- >".toList ⟨.comment, 7⟩ ∧
    (⟨.comment, 7⟩ : Unterminated).message = "Unterminated comment at offset 7" ∧
    ∃ tree, parse ("<a x='1<!-- >".toList.take 7) = .ok tree := by
  have hparse : parse "<a x='1<!-- >".toList = .error ⟨.comment, 7⟩ := by
    with_unfolding_all rfl
  obtain ⟨hiff, _, hbefore⟩ := parse_fails_iff_unterminated "<a x='1<!-- >".toList
  have hat := (hiff _).mp hparse
  exact ⟨hat, (hbefore _ hat).1, (hbefore _ hat).2⟩

end Markup
end NuspecLint
