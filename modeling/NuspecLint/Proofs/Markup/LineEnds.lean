import NuspecLint.Proofs.Markup.Pattern
import NuspecLint.Proofs.Text.Newline

/-!
# Line ends in markup

No reader of markup tells the characters of line ends apart, and none stops between the two
characters of one.

**View.**  A piece with unified line ends is the piece with every line end in it turned into a line
feed.

**Results.**
* `Piece.next_normalizeNewlines`: the first piece of a text with unified line ends is the first
  piece of the text, with unified line ends.
* `Piece.cleanCut_of_next`: no line end is cut in two where a piece ends.
* `AttributeText.read_normalizeNewlines`: attributes are read alike.
-/

namespace NuspecLint
namespace Text

theorem lineFeed_eq_iff
    {a c : Char}
    (hreturn : a ≠ '\r')
    (hfeed : a ≠ '\n') :
    lineFeed c = a ↔ c = a := by
  unfold lineFeed
  split
  · next hc =>
      simp [hc, hreturn.symm, hfeed.symm]
  · rfl

theorem getLast?_normalizeNewlines (s : List Char) :
    (normalizeNewlines s).getLast? = s.getLast?.map lineFeed := by
  induction s using newline_induction with
  | nil =>
      simp
  | crlf s ih =>
      rw [normalizeNewlines_crlf, List.getLast?_cons, ih, List.getLast?_cons, List.getLast?_cons]
      cases s.getLast? with
      | none =>
          rfl
      | some c =>
          rfl
  | cons c s hclean ih =>
      rw [normalizeNewlines_cons hclean, List.getLast?_cons, ih, List.getLast?_cons]
      cases s.getLast? with
      | none =>
          rfl
      | some c =>
          rfl

theorem oneLine_of_forall
    {p : Char → Bool} {s : List Char}
    (hreturn : p '\r' = false)
    (hfeed : p '\n' = false)
    (h : ∀ c ∈ s, p c = true) :
    OneLine s := by
  intro c hc
  have hp := h c hc
  constructor
  · rintro rfl
    rw [hreturn] at hp
    cases hp
  · rintro rfl
    rw [hfeed] at hp
    cases hp

theorem oneLine_takeWhile
    {p : Char → Bool}
    (hreturn : p '\r' = false)
    (hfeed : p '\n' = false)
    (s : List Char) :
    OneLine (s.takeWhile p) :=
  oneLine_of_forall hreturn hfeed fun _ hc => List.mem_takeWhile_imp hc

end Text

namespace Markup

open Text

section Attributes

/-- The value with unified line ends. -/
def ValueText.unify : ValueText → ValueText
  | bare run => bare (normalizeNewlines run)
  | quoted quote inside => quoted quote (normalizeNewlines inside)

/-- The assignment with unified line ends. -/
def Assignment.unify (a : Assignment) : Assignment :=
  ⟨normalizeNewlines a.gapBefore, normalizeNewlines a.gapAfter, a.value.unify⟩

/-- The attribute with unified line ends. -/
def AttributeText.unify (a : AttributeText) : AttributeText :=
  ⟨a.name, a.assignment.map Assignment.unify⟩

theorem ne_return_of_isQuote
    {c : Char}
    (h : isQuote c = true) :
    c ≠ '\r' ∧ c ≠ '\n' := by
  constructor
  · rintro rfl
    exact absurd h (by decide)
  · rintro rfl
    exact absurd h (by decide)

theorem ne_return_of_isBareChar
    {c : Char}
    (h : isBareChar c = true) :
    c ≠ '\r' := by
  rintro rfl
  exact absurd h (by decide)

theorem ne_return_of_dropWhile_isBlank
    {c : Char} {s t : List Char}
    (h : s.dropWhile isBlank = c :: t) :
    c ≠ '\r' := by
  have hhead := List.head?_dropWhile_not isBlank s
  rw [h] at hhead
  have hblank : isBlank c = false := hhead
  rintro rfl
  exact absurd hblank (by decide)

theorem ValueText.read?_normalizeNewlines (s : List Char) :
    read? (normalizeNewlines s) =
      (read? s).map fun found => (found.1.unify, normalizeNewlines found.2) := by
  cases s using newline_cases with
  | nil =>
      rfl
  | crlf s =>
      rfl
  | cons c s hclean =>
      rw [normalizeNewlines_cons hclean, read?, read?]
      cases hquote : isQuote c with
      | true =>
          have hc := ne_return_of_isQuote hquote
          have hline : OneLine [c] := by
            simpa [OneLine] using hc
          rw [lineFeed_of_ne hc.1, hquote, if_pos rfl, if_pos rfl,
            splitAt?_normalizeNewlines hline (by simp), Option.map_map, Option.map_map]
          rfl
      | false =>
          rw [apply_lineFeed (p := isQuote) (by decide),
            apply_lineFeed (p := isBareChar) (by decide), hquote, if_neg Bool.false_ne_true,
            if_neg Bool.false_ne_true]
          cases hbare : isBareChar c with
          | true =>
              have hc := ne_return_of_isBareChar hbare
              rw [lineFeed_of_ne hc, if_pos rfl, if_pos rfl,
                takeWhile_normalizeNewlines (by decide), dropWhile_normalizeNewlines (by decide)]
              simp [unify, normalizeNewlines_cons_of_ne hc]
          | false =>
              rfl

theorem Assignment.read?_normalizeNewlines (s : List Char) :
    read? (normalizeNewlines s) =
      (read? s).map fun found => (found.1.unify, normalizeNewlines found.2) := by
  have hblank : isBlank '\r' = isBlank '\n' := by decide
  unfold read?
  rw [dropWhile_normalizeNewlines hblank]
  cases hrest : s.dropWhile isBlank with
  | nil =>
      rfl
  | cons c t =>
      have hc := ne_return_of_dropWhile_isBlank hrest
      rw [normalizeNewlines_cons_of_ne hc, takeWhile_normalizeNewlines hblank]
      by_cases heq : c = '='
      · simp only [heq, if_true]
        rw [dropWhile_normalizeNewlines hblank, takeWhile_normalizeNewlines hblank,
          ValueText.read?_normalizeNewlines, Option.map_map, Option.map_map]
        rfl
      · simp [heq]

theorem AttributeText.read_normalizeNewlines (c : Char) (s : List Char) :
    read c (normalizeNewlines s) =
      ((read c s).1.unify, normalizeNewlines (read c s).2) := by
  have hname := oneLine_takeWhile (p := isAttributeNameChar) (by decide) (by decide) s
  unfold read
  simp only [takeWhile_normalizeNewlines (p := isAttributeNameChar) (by decide),
    dropWhile_normalizeNewlines (p := isAttributeNameChar) (by decide),
    normalizeNewlines_of_oneLine hname, Assignment.read?_normalizeNewlines]
  cases Assignment.read? (s.dropWhile isAttributeNameChar) with
  | none =>
      rfl
  | some found =>
      rfl

theorem ValueText.value_unify (v : ValueText) :
    v.unify.value = normalizeNewlines v.value := by
  cases v with
  | bare run =>
      rfl
  | quoted quote inside =>
      rfl

theorem AttributeText.value_unify (a : AttributeText) :
    a.unify.value = normalizeNewlines a.value := by
  obtain ⟨name, assignment⟩ := a
  cases assignment with
  | none =>
      rfl
  | some found =>
      exact ValueText.value_unify found.value

theorem ValueText.cleanCut_of_read?
    {s rest : List Char} {v : ValueText}
    (h : read? s = some (v, rest)) :
    v.raw ≠ [] ∧ CleanCut v.raw rest := by
  cases s with
  | nil =>
      simp [read?] at h
  | cons c s =>
      simp only [read?] at h
      split at h
      · next hquote =>
          obtain ⟨cut, _, heq⟩ := Option.map_eq_some_iff.mp h
          simp only [Prod.mk.injEq] at heq
          obtain ⟨rfl, rfl⟩ := heq
          refine ⟨by simp [raw], ?_⟩
          exact (cleanCut_singleton (ne_return_of_isQuote hquote).1).append_left
            (u := c :: cut.1) (by simp)
      · split at h
        · next hbare =>
            simp only [Option.some.injEq, Prod.mk.injEq] at h
            obtain ⟨rfl, rfl⟩ := h
            refine ⟨by simp [raw], OneLine.cleanCut ?_⟩
            have hline := oneLine_takeWhile (p := isBareChar) (by decide) (by decide) (c :: s)
            rwa [List.takeWhile_cons, hbare] at hline
        · simp at h

theorem Assignment.cleanCut_of_read?
    {s rest : List Char} {a : Assignment}
    (h : read? s = some (a, rest)) :
    a.raw ≠ [] ∧ CleanCut a.raw rest := by
  unfold read? at h
  split at h
  · simp at h
  · split at h
    · obtain ⟨found, hfound, heq⟩ := Option.map_eq_some_iff.mp h
      simp only [Prod.mk.injEq] at heq
      obtain ⟨rfl, rfl⟩ := heq
      obtain ⟨hne, hclean⟩ := ValueText.cleanCut_of_read? hfound
      refine ⟨by simp [raw], ?_⟩
      rw [raw, ← List.cons_append, ← List.append_assoc]
      exact hclean.append_left hne
    · simp at h

/-- No line end is cut in two where an attribute ends. -/
theorem AttributeText.cleanCut_read
    {c : Char}
    (hc : isAttributeNameChar c = true)
    (s : List Char) :
    CleanCut (read c s).1.raw (read c s).2 := by
  have hname : OneLine (c :: s.takeWhile isAttributeNameChar) := by
    have hline := oneLine_takeWhile (p := isAttributeNameChar) (by decide) (by decide) (c :: s)
    rwa [List.takeWhile_cons, hc] at hline
  unfold read
  simp only
  split
  · next a rest hread =>
      obtain ⟨hne, hclean⟩ := Assignment.cleanCut_of_read? hread
      exact hclean.append_left hne
  · simpa [raw] using hname.cleanCut

theorem AttributeText.raw_unify
    {c : Char}
    (hc : isAttributeNameChar c = true)
    (s : List Char) :
    (read c s).1.unify.raw = normalizeNewlines (read c s).1.raw := by
  have hreturn : c ≠ '\r' := by
    rintro rfl
    exact absurd hc (by decide)
  have hunified := eq_append_of_read c (normalizeNewlines s)
  rw [read_normalizeNewlines, ← normalizeNewlines_cons_of_ne hreturn, eq_append_of_read c s,
    normalizeNewlines_append (cleanCut_read hc s)] at hunified
  exact (List.append_cancel_right hunified).symm

end Attributes

section Tags

/-- The start tag with unified line ends. -/
def StartTag.unify (t : StartTag) : StartTag :=
  { t with attributePart := normalizeNewlines t.attributePart }

/-- The end tag with unified line ends. -/
def EndTag.unify (t : EndTag) : EndTag :=
  { t with gap := normalizeNewlines t.gap }

theorem splitTagEnd?_normalizeNewlines
    {quote : Option Char}
    (hquote : ∀ q ∈ quote, isQuote q = true)
    (s : List Char) :
    splitTagEnd? quote (normalizeNewlines s) =
      (splitTagEnd? quote s).map fun cut =>
        (normalizeNewlines cut.1, normalizeNewlines cut.2) := by
  induction s using newline_induction generalizing quote with
  | nil =>
      cases quote <;> rfl
  | crlf s ih =>
      cases quote with
      | none =>
          simp [splitTagEnd?, ih hquote, isQuote, Option.map_map]
          rfl
      | some q =>
          have hq := ne_return_of_isQuote (hquote q rfl)
          simp [splitTagEnd?, hq.1.symm, hq.2.symm, ih hquote, Option.map_map]
          rfl
  | cons c s hclean ih =>
      have htail : ∀ quote, (∀ q ∈ quote, isQuote q = true) →
          (splitTagEnd? quote (normalizeNewlines s)).map (fun cut => (lineFeed c :: cut.1, cut.2)) =
            ((splitTagEnd? quote s).map fun cut => (c :: cut.1, cut.2)).map fun cut =>
              (normalizeNewlines cut.1, normalizeNewlines cut.2) := by
        intro quote hquote
        rw [ih hquote]
        cases hcut : splitTagEnd? quote s with
        | none =>
            rfl
        | some cut =>
            rw [eq_append_of_splitTagEnd? hcut] at hclean
            simp [normalizeNewlines_cons hclean.of_append]
      rw [normalizeNewlines_cons hclean]
      cases quote with
      | some q =>
          have hq := ne_return_of_isQuote (hquote q rfl)
          simp only [splitTagEnd?, lineFeed_eq_iff hq.1 hq.2]
          apply htail
          split
          · simp
          · exact hquote
      | none =>
          simp only [splitTagEnd?, apply_lineFeed (p := isQuote) (by decide),
            lineFeed_eq_iff (a := '>') (by decide) (by decide),
            lineFeed_eq_iff (a := '<') (by decide) (by decide)]
          split
          · rfl
          · split
            · rfl
            · cases hc : isQuote c with
              | true =>
                  rw [lineFeed_of_ne (ne_return_of_isQuote hc).1]
                  have hquoted := htail (some c) (by simpa using hc)
                  rw [lineFeed_of_ne (ne_return_of_isQuote hc).1] at hquoted
                  exact hquoted
              | false =>
                  exact htail none (by simp)

theorem StartTag.ofBody_normalizeNewlines (name body : List Char) :
    ofBody name (normalizeNewlines body) = (ofBody name body).unify := by
  have hlast : (normalizeNewlines body).getLast? = some '/' ↔ body.getLast? = some '/' := by
    rw [getLast?_normalizeNewlines]
    cases body.getLast? with
    | none =>
        simp
    | some c =>
        simp [lineFeed_eq_iff]
  unfold ofBody
  simp only [hlast]
  split
  · next hslash =>
      obtain ⟨front, rfl⟩ := List.getLast?_eq_some_iff.mp hslash
      have hclean : CleanCut front ['/'] := by
        simp [CleanCut]
      rw [normalizeNewlines_append hclean, normalizeNewlines_cons_of_ne (c := '/') (by decide)]
      simp [unify]
  · rfl

theorem StartTag.read?_normalizeNewlines (s : List Char) :
    read? ('<' :: normalizeNewlines s) =
      (read? ('<' :: s)).map fun found => (found.1.unify, normalizeNewlines found.2) := by
  have hname := oneLine_takeWhile (p := isTagNameChar) (by decide) (by decide) s
  simp only [read?, takeWhile_normalizeNewlines (p := isTagNameChar) (by decide),
    dropWhile_normalizeNewlines (p := isTagNameChar) (by decide),
    normalizeNewlines_of_oneLine hname]
  split
  · rfl
  · rw [splitTagEnd?_normalizeNewlines (by simp), Option.map_map, Option.map_map]
    simp [Function.comp_def, ofBody_normalizeNewlines]

theorem EndTag.read?_normalizeNewlines (s : List Char) :
    read? ('<' :: '/' :: normalizeNewlines s) =
      (read? ('<' :: '/' :: s)).map fun found => (found.1.unify, normalizeNewlines found.2) := by
  have hname := oneLine_takeWhile (p := isEndNameChar) (by decide) (by decide) s
  have hblank : isBlank '\r' = isBlank '\n' := by decide
  simp only [read?, takeWhile_normalizeNewlines (p := isEndNameChar) (by decide),
    dropWhile_normalizeNewlines (p := isEndNameChar) (by decide),
    normalizeNewlines_of_oneLine hname, dropWhile_normalizeNewlines hblank,
    takeWhile_normalizeNewlines hblank]
  split
  · rfl
  · cases hrest : (s.dropWhile isEndNameChar).dropWhile isBlank with
    | nil =>
        rfl
    | cons c after =>
        have hc := ne_return_of_dropWhile_isBlank hrest
        rw [normalizeNewlines_cons_of_ne hc]
        by_cases heq : c = '>'
        · simp [heq, unify]
        · simp [heq]

end Tags

section Pieces

/-- The piece with unified line ends. -/
def Piece.unify : Piece → Piece
  | skipped kind body => skipped kind (normalizeNewlines body)
  | cdata content => cdata (normalizeNewlines content)
  | endTag tag => endTag tag.unify
  | startTag tag => startTag tag.unify
  | text run => text (normalizeNewlines run)

theorem Enclosure.oneLine_opening (kind : Enclosure) :
    OneLine kind.opening := by
  cases kind <;> simp [OneLine, opening]

theorem Enclosure.oneLine_terminator (kind : Enclosure) :
    OneLine kind.terminator := by
  cases kind <;> simp [OneLine, terminator]

theorem Enclosure.opened?_normalizeNewlines (s : List Char) :
    opened? (normalizeNewlines s) = opened? s := by
  have hpre : ∀ kind : Enclosure,
      kind.opening.isPrefixOf (normalizeNewlines s) = kind.opening.isPrefixOf s := by
    intro kind
    rw [Bool.eq_iff_iff, List.isPrefixOf_iff_prefix, List.isPrefixOf_iff_prefix,
      prefix_normalizeNewlines_iff kind.oneLine_opening]
  simp only [opened?, hpre]

namespace Piece

theorem ofEnclosure?_normalizeNewlines
    {kind : Enclosure} {s : List Char}
    (h : kind.opening <+: s) :
    ofEnclosure? kind (normalizeNewlines s) =
      (ofEnclosure? kind s).map fun found => (found.1.unify, normalizeNewlines found.2) := by
  have hterminator : kind.terminator ≠ [] := by
    cases kind <;> simp [Enclosure.terminator]
  by_cases hkind : kind = .cdata
  · subst hkind
    simp only [ofEnclosure?]
    rw [drop_normalizeNewlines (Enclosure.oneLine_opening _) h,
      splitAt?_normalizeNewlines (Enclosure.oneLine_terminator _) hterminator, Option.map_map,
      Option.map_map]
    rfl
  · rw [ofEnclosure?_of_ne_cdata hkind, ofEnclosure?_of_ne_cdata hkind,
      splitAt?_normalizeNewlines kind.oneLine_terminator hterminator, Option.map_map,
      Option.map_map]
    rfl

theorem ofTag?_normalizeNewlines (s : List Char) :
    ofTag? ('<' :: normalizeNewlines s) =
      (ofTag? ('<' :: s)).map fun found => (found.1.unify, normalizeNewlines found.2) := by
  by_cases hslash : ∃ t, s = '/' :: t
  · obtain ⟨t, rfl⟩ := hslash
    rw [normalizeNewlines_cons_of_ne (by decide)]
    simp only [ofTag?, EndTag.read?_normalizeNewlines, Option.map_map]
    rfl
  · have hstart : ∀ u, (∀ t, u ≠ '/' :: t) →
        ofTag? ('<' :: u) =
          (StartTag.read? ('<' :: u)).map fun found => (startTag found.1, found.2) := by
      intro u hu
      cases u with
      | nil =>
          rfl
      | cons c u =>
          exact ofTag?_of_ne_slash (fun hc => hu u (by rw [hc]))
    have hs : ∀ t, s ≠ '/' :: t := fun t ht => hslash ⟨t, ht⟩
    have hunified : ∀ t, normalizeNewlines s ≠ '/' :: t := by
      intro t ht
      have hpre : ['/'] <+: normalizeNewlines s := ⟨t, ht.symm⟩
      rw [prefix_normalizeNewlines_iff (by simp [OneLine])] at hpre
      obtain ⟨u, hu⟩ := hpre
      exact hs u hu.symm
    rw [hstart _ hunified, hstart _ hs, StartTag.read?_normalizeNewlines, Option.map_map,
      Option.map_map]
    rfl

theorem eq_bracket_of_normalizeNewlines
    {c : Char} {s t : List Char}
    (h : normalizeNewlines (c :: s) = '<' :: t) :
    c = '<' := by
  have hpre : ['<'] <+: normalizeNewlines (c :: s) := ⟨t, h.symm⟩
  rw [prefix_normalizeNewlines_iff (by simp [OneLine])] at hpre
  obtain ⟨u, hu⟩ := hpre
  exact (List.cons.inj hu).1.symm

theorem ofText_of_ne
    {c : Char} {s : List Char}
    (h : c ≠ '<') :
    ofText c s = (text ((c :: s).takeWhile (· != '<')), (c :: s).dropWhile (· != '<')) := by
  simp [ofText, h]

theorem ofText_normalizeNewlines
    {c d : Char} {s t : List Char}
    (h : normalizeNewlines (c :: s) = d :: t) :
    ofText d t = ((ofText c s).1.unify, normalizeNewlines (ofText c s).2) := by
  by_cases hc : c = '<'
  · subst hc
    rw [normalizeNewlines_cons_of_ne (by decide)] at h
    obtain ⟨rfl, rfl⟩ := List.cons.inj h
    simp [ofText, unify, takeWhile_normalizeNewlines, dropWhile_normalizeNewlines,
      normalizeNewlines_cons_of_ne]
  · have hd : d ≠ '<' := by
      rintro rfl
      exact hc (eq_bracket_of_normalizeNewlines h)
    rw [ofText_of_ne hd, ofText_of_ne hc, ← h, takeWhile_normalizeNewlines (by decide),
      dropWhile_normalizeNewlines (by decide)]
    rfl

/-- The first piece of a text with unified line ends. -/
theorem next_normalizeNewlines
    {c d : Char} {s t rest : List Char} {p : Piece}
    (h : normalizeNewlines (c :: s) = d :: t)
    (hnext : next c s = .ok (p, rest)) :
    next d t = .ok (p.unify, normalizeNewlines rest) := by
  have hopened := Enclosure.opened?_normalizeNewlines (c :: s)
  rw [h] at hopened
  cases hkind : Enclosure.opened? (c :: s) with
  | some kind =>
      have hopening := List.isPrefixOf_iff_prefix.mp (Enclosure.isPrefixOf_of_opened? hkind)
      rw [next_of_opened? hkind] at hnext
      rw [next_of_opened? (hopened.trans hkind), ← h, ofEnclosure?_normalizeNewlines hopening]
      cases hfound : ofEnclosure? kind (c :: s) with
      | none =>
          simp [hfound] at hnext
      | some found =>
          rw [hfound] at hnext
          cases hnext
          rfl
  | none =>
      have htext := ofText_normalizeNewlines h
      by_cases hc : c = '<'
      · subst hc
        rw [next_of_opened?_eq_none hkind, Except.ok.injEq] at hnext
        rw [normalizeNewlines_cons_of_ne (by decide)] at h
        obtain ⟨rfl, rfl⟩ := List.cons.inj h
        rw [next_of_opened?_eq_none (hopened.trans hkind), ofTag?_normalizeNewlines, htext]
        cases htag : ofTag? ('<' :: s) with
        | none =>
            rw [htag, Option.getD_none] at hnext
            simp [hnext]
        | some found =>
            rw [htag, Option.getD_some] at hnext
            simp [hnext]
      · have hd : d ≠ '<' := by
          rintro rfl
          exact hc (eq_bracket_of_normalizeNewlines h)
        rw [next_of_ne hc, Except.ok.injEq] at hnext
        rw [next_of_ne hd, htext, hnext]

theorem getLast?_raw
    {p : Piece}
    (h : ∀ run, p ≠ text run) :
    p.raw.getLast? = some '>' := by
  cases p with
  | skipped kind body =>
      cases kind <;> simp [raw, Enclosure.terminator]
  | cdata content =>
      simp [raw, Enclosure.terminator, List.getLast?_append]
  | endTag tag =>
      simp [raw, EndTag.raw, List.getLast?_cons]
  | startTag tag =>
      cases hself : tag.selfClosing <;> simp [raw, StartTag.raw, hself, List.getLast?_cons]
  | text run =>
      exact absurd rfl (h run)

/-- No line end is cut in two where a piece ends. -/
theorem cleanCut_of_next
    {c : Char} {s rest : List Char} {p : Piece}
    (h : next c s = .ok (p, rest)) :
    CleanCut p.raw rest := by
  by_cases htext : ∃ run, p = text run
  · obtain ⟨run, rfl⟩ := htext
    cases reading_of_next h with
    | @text d t hs hmarkup =>
        intro _ hhead
        have hnot := List.head?_dropWhile_not (· != '<') t
        rw [hhead] at hnot
        exact absurd hnot (by decide)
  · intro hlast
    rw [getLast?_raw (fun run hrun => htext ⟨run, hrun⟩)] at hlast
    exact absurd hlast (by decide)

/-- A piece that is read stands, with unified line ends, on its characters so treated. -/
theorem raw_unify
    {c : Char} {s rest : List Char} {p : Piece}
    (h : next c s = .ok (p, rest)) :
    p.unify.raw = normalizeNewlines p.raw := by
  obtain ⟨d, t, ht⟩ := List.exists_cons_of_ne_nil
    (show normalizeNewlines (c :: s) ≠ [] by simp [normalizeNewlines_eq_nil_iff])
  have hunified := raw_append_of_next (next_normalizeNewlines ht h)
  rw [← ht, ← raw_append_of_next h, normalizeNewlines_append (cleanCut_of_next h)] at hunified
  exact List.append_cancel_right hunified

end Piece

end Pieces

end Markup
end NuspecLint
