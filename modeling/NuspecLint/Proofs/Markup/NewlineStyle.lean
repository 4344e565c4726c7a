import NuspecLint.Proofs.Markup.Alike
import NuspecLint.Proofs.Markup.Laminar
import NuspecLint.Proofs.Markup.LineEnds
import NuspecLint.Proofs.Markup.Unterminated
import NuspecLint.Proofs.Position

/-!
# Parsing with unified line ends

A text and the same text with unified line ends are parsed into trees that differ only in the line
ends of their values, with everything at the same lines and columns.

**Strategy.**  The two texts are scanned side by side.  At every piece the scans stand at the same
spot: the characters before it are the same up to line ends, and no line end is cut in two there.

**Results.**
* `Spine.Alike.step`: taking in corresponding pieces keeps trees under construction alike.
* `Scan.Run.alike`: a scan of the one text is matched by a scan of the other.
* `parse_newline_style`: the two texts are parsed alike, or fail alike.
-/

namespace NuspecLint
namespace Markup

open Text

theorem Spine.FitsAt.level_innermost
    {source : List Char} {limit : Nat} {s : Spine}
    (h : s.FitsAt source limit) :
    ∃ lo, Level source lo limit s.innermost := by
  obtain ⟨opened, newest⟩ := s
  cases h with
  | outermost hlevel =>
      exact ⟨_, hlevel⟩
  | inner _ hlevel _ =>
      exact ⟨_, hlevel⟩

section Spots

/--
The offset `i` of a text and the offset `j` of the text with unified line ends have the same
characters before them, up to line ends, and neither stands inside a line end.
-/
def SameSpot (source : List Char) (i j : Nat) : Prop :=
  ∃ before after,
    source = before ++ after ∧ CleanCut before after ∧
    i = before.length ∧ j = (normalizeNewlines before).length

variable {source rest x : List Char} {i j i' j' : Nat}

theorem sameSpot_zero (source : List Char) :
    SameSpot source 0 0 :=
  ⟨[], source, rfl, cleanCut_nil, rfl, rfl⟩

theorem drop_add_length
    (h : source.drop i = x ++ rest) :
    source.drop (i + x.length) = rest := by
  rw [← List.drop_drop, h, List.drop_left]

theorem SameSpot.advance
    (h : SameSpot source i j)
    (hdrop : source.drop i = x ++ rest)
    (hclean : CleanCut x rest) :
    SameSpot source (i + x.length) (j + (normalizeNewlines x).length) := by
  obtain ⟨before, after, rfl, hcut, rfl, rfl⟩ := h
  rw [List.drop_left] at hdrop
  subst hdrop
  refine ⟨before ++ x, rest, by simp, hcut.append hclean, by simp, ?_⟩
  rw [normalizeNewlines_append hcut.of_append, List.length_append]

theorem SameSpot.drop_normalizeNewlines
    (h : SameSpot source i j) :
    (normalizeNewlines source).drop j = normalizeNewlines (source.drop i) := by
  obtain ⟨before, after, rfl, hcut, rfl, rfl⟩ := h
  rw [normalizeNewlines_append hcut, List.drop_left, List.drop_left]

theorem SameSpot.lt
    (h : SameSpot source i j)
    (h' : SameSpot source i' j')
    (hlt : i < i') :
    j < j' := by
  obtain ⟨before, after, rfl, hcut, rfl, rfl⟩ := h
  obtain ⟨before', after', heq, _, rfl, rfl⟩ := h'
  obtain ⟨x, rfl⟩ : before <+: before' := by
    apply List.prefix_of_prefix_length_le (List.prefix_append before after) _ (Nat.le_of_lt hlt)
    rw [heq]
    exact List.prefix_append before' after'
  rw [List.append_assoc] at heq
  rw [List.append_cancel_left heq] at hcut
  have hx : x ≠ [] := by
    rintro rfl
    simp at hlt
  have hpos := List.length_pos_iff.mpr (mt normalizeNewlines_eq_nil_iff.mp hx)
  rw [normalizeNewlines_append hcut.of_append, List.length_append]
  omega

theorem SameSpot.eq_iff
    (h : SameSpot source i j)
    (h' : SameSpot source i' j') :
    i = i' ↔ j = j' := by
  constructor
  · rintro rfl
    obtain ⟨before, after, rfl, _, rfl, rfl⟩ := h
    obtain ⟨before', after', heq, _, hlength, rfl⟩ := h'
    rw [(List.append_inj heq hlength).1]
  · rintro rfl
    rcases Nat.lt_trichotomy i i' with hlt | heq | hlt
    · exact absurd (h.lt h' hlt) (Nat.lt_irrefl j)
    · exact heq
    · exact absurd (h'.lt h hlt) (Nat.lt_irrefl j)

/-- What ends at a spot is not cut in two there. -/
theorem SameSpot.cleanCut_extract
    (h : SameSpot source i j)
    (first : Nat) :
    CleanCut (source.extract first i) (source.drop i) := by
  obtain ⟨before, after, rfl, hcut, rfl, _⟩ := h
  rw [List.drop_left]
  intro hlast
  apply hcut
  rw [List.extract_eq_take_drop, ← List.drop_take, List.take_left, List.getLast?_drop] at hlast
  split at hlast
  · cases hlast
  · exact hlast

/-- Attributes written in corresponding parts of start tags. -/
theorem attributesAt_alike
    {part : List Char}
    (h : SameSpot source i j)
    (hdrop : source.drop i = part ++ rest)
    (hclean : CleanCut part rest) :
    List.Forall₂ (Attribute.Alike (SameSpot source))
      (attributesAt i part) (attributesAt j (normalizeNewlines part)) := by
  -- On the length of the part: the two characters of a line end are passed over one by one.
  induction hlength : part.length using Nat.strong_induction_on generalizing i j part with
  | h n ih =>
      cases part using newline_cases with
      | nil =>
          simp
      | crlf s =>
          have hend : source.drop i = ['\r', '\n'] ++ (s ++ rest) := hdrop
          have hspot := h.advance hend (by simp [CleanCut])
          rw [normalizeNewlines_crlf, attributesAt_cons_of_gap _ (by decide),
            attributesAt_cons_of_gap _ (by decide), attributesAt_cons_of_gap _ (by decide)]
          rw [List.length_cons, List.length_cons] at hlength
          exact ih s.length (by omega) hspot (drop_add_length hend) hclean.tail.tail rfl
      | cons c s hcons =>
          rw [normalizeNewlines_cons hcons]
          by_cases hc : isAttributeNameChar c = true
          · have hreturn : c ≠ '\r' := by
              rintro rfl
              exact absurd hc (by decide)
            have hraw := AttributeText.eq_append_of_read c s
            have hcut := AttributeText.cleanCut_read hc s
            have hunified := AttributeText.raw_unify hc s
            have hshort := AttributeText.length_read_lt c s
            have hread := AttributeText.read_normalizeNewlines c s
            obtain ⟨a, after, hfound⟩ : ∃ a after, AttributeText.read c s = (a, after) :=
              ⟨_, _, rfl⟩
            rw [hfound] at hraw hcut hunified hshort hread
            simp only at hraw hcut hunified hshort hread
            rw [hraw] at hclean hdrop
            rw [List.append_assoc] at hdrop
            have hspot := h.advance hdrop (hcut.append_right hclean)
            rw [attributesAt_cons_of_read _ hc hfound, lineFeed_of_ne hreturn,
              attributesAt_cons_of_read _ hc hread, hunified, AttributeText.value_unify]
            refine List.Forall₂.cons ⟨rfl, rfl, h, hspot⟩ ?_
            exact ih after.length (by omega) hspot (drop_add_length hdrop)
              hclean.of_append_left rfl
          · rw [Bool.not_eq_true] at hc
            have hpassed : source.drop i = [c] ++ (s ++ rest) := hdrop
            have hspot := h.advance hpassed (hcons.append_right hclean)
            rw [normalizeNewlines_cons (by simp [CleanCut])] at hspot
            have hfeed : isAttributeNameChar (lineFeed c) = false := by
              rw [apply_lineFeed (p := isAttributeNameChar) (by decide), hc]
            rw [attributesAt_cons_of_gap _ hc, attributesAt_cons_of_gap _ hfeed]
            rw [List.length_cons] at hlength
            exact ih s.length (by omega) hspot (drop_add_length hpassed) hclean.tail rfl

end Spots

section Simulation

variable {source : List Char}

/-- Start tags that are read at corresponding places have alike attributes. -/
theorem Piece.attributesAt_alike
    {i j : Nat} {c : Char} {s rest : List Char} {tag : StartTag}
    (hspot : SameSpot source i j)
    (hdrop : source.drop i = c :: s)
    (hnext : next c s = .ok (startTag tag, rest)) :
    List.Forall₂ (Attribute.Alike (SameSpot source))
      (attributesAt (i + 1 + tag.name.length) tag.attributePart)
      (attributesAt (j + 1 + tag.name.length) (normalizeNewlines tag.attributePart)) := by
  have hname : OneLine ('<' :: tag.name) := by
    cases reading_of_next hnext with
    | startTag hs hread =>
        rw [hs] at hread
        obtain ⟨_, _, _, _, hchars, _⟩ := StartTag.spelled_of_read? hread
        have hline := oneLine_of_forall (p := isTagNameChar) (by decide) (by decide) hchars
        intro d hd
        rcases List.mem_cons.mp hd with rfl | hd
        · decide
        · exact hline d hd
  have hraw : c :: s = ('<' :: tag.name) ++ (tag.attributePart ++
      ((if tag.selfClosing then ['/', '>'] else ['>']) ++ rest)) := by
    rw [← raw_append_of_next hnext]
    simp [raw, StartTag.raw]
  have hclose : CleanCut tag.attributePart
      ((if tag.selfClosing then ['/', '>'] else ['>']) ++ rest) := by
    cases tag.selfClosing <;> simp [CleanCut]
  rw [hraw] at hdrop
  have hpart := hspot.advance hdrop hname.cleanCut
  have hafter := drop_add_length hdrop
  rw [normalizeNewlines_of_oneLine hname] at hpart
  simp only [List.length_cons, Nat.add_comm tag.name.length 1, ← Nat.add_assoc] at hpart hafter
  exact Markup.attributesAt_alike hpart hafter hclose

/-- Taking in corresponding pieces keeps trees under construction alike. -/
theorem Spine.Alike.step
    {spine spine' : Spine} {i j : Nat} {c : Char} {s rest : List Char} {p : Piece}
    (h : spine.Alike (SameSpot source) spine')
    (hfits : spine.FitsAt source i)
    (hspot : SameSpot source i j)
    (hdrop : source.drop i = c :: s)
    (hnext : Piece.next c s = .ok (p, rest)) :
    (spine.step i p).Alike (SameSpot source) (spine'.step j p.unify) := by
  have hraw := Piece.raw_unify hnext
  have hcut := Piece.cleanCut_of_next hnext
  have hsource := hdrop
  rw [← Piece.raw_append_of_next hnext] at hdrop
  have hstop := hspot.advance hdrop hcut
  rw [← hraw] at hstop
  cases p with
  | skipped kind body =>
      exact h
  | cdata content =>
      rw [Piece.raw, List.append_assoc, List.append_assoc] at hdrop
      have hopening := hspot.advance hdrop (Enclosure.oneLine_opening _).cleanCut
      rw [normalizeNewlines_of_oneLine (Enclosure.oneLine_opening _)] at hopening
      have hcontent := hopening.advance (drop_add_length hdrop)
        (by simp [CleanCut, Enclosure.terminator])
      exact h.add ⟨hopening, hcontent, rfl⟩
  | endTag tag =>
      have hdepth := depthOf?_congr tag.name h.opened
      simp only [Spine.step, Piece.unify, EndTag.unify, hdepth]
      cases depthOf? tag.name spine.opened with
      | none =>
          exact h
      | some depth =>
          exact (h.abandon depth hspot).closeInnermost hspot hstop
  | startTag tag =>
      have hattributes := Piece.attributesAt_alike hspot hsource hnext
      obtain ⟨name, part, selfClosing⟩ := tag
      cases selfClosing with
      | true =>
          exact h.add ⟨⟨rfl, hattributes, hspot, hstop, Option.Rel.none, hstop, rfl⟩, trivial⟩
      | false =>
          exact ⟨List.Forall₂.cons ⟨rfl, hattributes, hspot, hstop, trivial⟩ h.opened, h.newest⟩
  | text run =>
      refine h.modifyNewest ?_
      apply alikeAll_appendRun h.innermost (fun hij => hij.eq_iff hspot) hspot hstop
      -- A text that the run extends ends at this spot, so no line end is cut in two between them.
      intro first value rest' hinnermost
      obtain ⟨lo, hlevel⟩ := hfits.level_innermost
      rw [hinnermost] at hlevel
      obtain ⟨_, _, hvalue⟩ := (Node.placedAll_cons.mp hlevel.placed).1
      have hclean := hspot.cleanCut_extract first
      rw [← hvalue, hdrop] at hclean
      exact hclean.of_append

namespace Scan

/-- Scans of a text and of the text with unified line ends that have come to the same spot. -/
structure Alike (source : List Char) (a b : Scan) : Prop where
  of : a.Of source
  fits : a.spine.FitsAt source a.pos
  spot : SameSpot source a.pos b.pos
  rest : b.rest = normalizeNewlines a.rest
  spine : a.spine.Alike (SameSpot source) b.spine

theorem alike_initial (source : List Char) :
    (initial source).Alike source (initial (normalizeNewlines source)) :=
  ⟨of_initial source, Spine.fitsAt_empty source, sameSpot_zero source, rfl,
    ⟨List.Forall₂.nil, trivial⟩⟩

/-- A piece that the one scan reads, the other reads too. -/
theorem Step.alike
    {a a' b : Scan} {p : Piece}
    (hstep : Step a p a')
    (h : a.Alike source b) :
    ∃ b', Step b p.unify b' ∧ a'.Alike source b' := by
  have hof := hstep.of h.of
  have hfits := hstep.fitsAt h.of h.fits
  obtain ⟨pos', rest', spine'⟩ := b
  cases hstep with
  | @read pos c s rest p spine hnext =>
      obtain ⟨d, t, ht⟩ := List.exists_cons_of_ne_nil
        (show normalizeNewlines (c :: s) ≠ [] by simp [normalizeNewlines_eq_nil_iff])
      obtain rfl : rest' = d :: t := h.rest.trans ht
      have hdrop : source.drop pos = p.raw ++ rest := by
        rw [h.of.drop_eq, Piece.raw_append_of_next hnext]
      have hspot := h.spot.advance hdrop (Piece.cleanCut_of_next hnext)
      rw [← Piece.raw_unify hnext] at hspot
      exact ⟨_, Step.read (Piece.next_normalizeNewlines ht hnext), hof, hfits, hspot, rfl,
        h.spine.step h.fits h.spot h.of.drop_eq hnext⟩

theorem Run.alike
    {a a' b : Scan} {ps : List Piece}
    (hrun : Run a ps a')
    (h : a.Alike source b) :
    ∃ b', Run b (ps.map Piece.unify) b' ∧ a'.Alike source b' := by
  induction hrun generalizing b with
  | refl a =>
      exact ⟨b, Run.refl b, h⟩
  | head hstep _ ih =>
      obtain ⟨m, hm, hmid⟩ := hstep.alike h
      obtain ⟨b', hb', hlast⟩ := ih hmid
      exact ⟨b', Run.head hm hb', hlast⟩

end Scan

/-- What is parsed of a text is parsed alike with unified line ends. -/
theorem parse_normalizeNewlines
    {tree : Node}
    (h : parse source = .ok tree) :
    ∃ tree',
      parse (normalizeNewlines source) = .ok tree' ∧ tree.Alike (SameSpot source) tree' := by
  obtain ⟨ps, last, hrun, hrest, rfl⟩ := parse_eq_ok_iff.mp h
  obtain ⟨last', hrun', halike⟩ := hrun.alike (Scan.alike_initial source)
  have hrest' : last'.rest = [] := by
    rw [halike.rest, hrest, normalizeNewlines_nil]
  have hspot := halike.spot
  rw [hrun.of.pos_eq_length hrest, hrun'.of.pos_eq_length hrest'] at hspot
  exact ⟨_, parse_eq_ok_iff.mpr ⟨_, last', hrun', hrest', rfl⟩,
    halike.spine.finish (sameSpot_zero source) hspot⟩

/-- An enclosure that is never closed stays so with unified line ends. -/
theorem parse_normalizeNewlines_error
    {u : Unterminated}
    (h : parse source = .error u) :
    ∃ u',
      parse (normalizeNewlines source) = .error u' ∧
      u'.kind = u.kind ∧ SameSpot source u.offset u'.offset := by
  obtain ⟨⟨ps, a, hrun, hpos⟩, hbegins, hunclosed⟩ := parse_eq_error_iff_unterminatedAt.mp h
  obtain ⟨b, hrun', halike⟩ := hrun.alike (Scan.alike_initial source)
  have hspot := halike.spot
  rw [hpos] at hspot
  refine ⟨⟨u.kind, b.pos⟩, parse_eq_error_iff_unterminatedAt.mpr ⟨⟨_, b, hrun', rfl⟩, ?_, ?_⟩,
    rfl, hspot⟩
  · rw [← Enclosure.opened?_eq_some_iff] at hbegins ⊢
    rw [hspot.drop_normalizeNewlines, Enclosure.opened?_normalizeNewlines, hbegins]
  · rw [← List.drop_drop, ← Piece.ofEnclosure?_eq_none_iff] at hunclosed ⊢
    rw [hspot.drop_normalizeNewlines, Piece.ofEnclosure?_normalizeNewlines hbegins.1, hunclosed]
    rfl

end Simulation

/-- Two offsets have the same line and character in their texts. -/
def SamePosition (source source' : List Char) (i j : Nat) : Prop :=
  (LineTable.ofText source).positionAt i = (LineTable.ofText source').positionAt j

theorem SameSpot.samePosition
    {source : List Char} {i j : Nat}
    (h : SameSpot source i j) :
    SamePosition source (normalizeNewlines source) i j := by
  obtain ⟨before, after, rfl, hcut, rfl, rfl⟩ := h
  rw [SamePosition, normalizeNewlines_append hcut, LineTable.positionAt_append hcut,
    LineTable.positionAt_append (cleanCut_normalizeNewlines before _), lineColumn_normalizeNewlines]

/-- What stands at the same spots has the same lines and characters. -/
theorem Node.Alike.samePosition
    {source : List Char} {tree tree' : Node}
    (h : tree.Alike (SameSpot source) tree') :
    tree.Alike (SamePosition source (normalizeNewlines source)) tree' := by
  have hall : AlikeAll (SameSpot source) [tree] [tree'] := ⟨h, trivial⟩
  exact (hall.mono SameSpot.samePosition).1

/--
**Line ends do not matter for the structure of a document.**  With unified line ends, a text is
parsed into a tree that is alike, and everything in it has the same line and character; or the text
fails to be parsed for an enclosure of the same kind at the same line and character.
-/
theorem parse_newline_style (source : List Char) :
    match parse source, parse (normalizeNewlines source) with
    | .ok tree, .ok tree' =>
        tree.Alike (SamePosition source (normalizeNewlines source)) tree'
    | .error u, .error u' =>
        u'.kind = u.kind ∧ SamePosition source (normalizeNewlines source) u.offset u'.offset
    | _, _ => False := by
  cases hparse : parse source with
  | ok tree =>
      obtain ⟨tree', hparse', halike⟩ := parse_normalizeNewlines hparse
      rw [hparse']
      exact halike.samePosition
  | error u =>
      obtain ⟨u', hparse', hkind, hspot⟩ := parse_normalizeNewlines_error hparse
      rw [hparse']
      exact ⟨hkind, hspot.samePosition⟩

end Markup
end NuspecLint
