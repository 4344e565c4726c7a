import NuspecLint.Proofs.Markup.RoundTrip
import NuspecLint.Proofs.Markup.Unterminated

/-!
# Pieces with other contents

What stands inside a comment, a processing instruction or a quoted string can be replaced, and the
text is still cut into pieces at the same places.

**Strategy.**  A piece other than plain text is read from its own characters, whatever follows
them.  A plain text without `<` is read as long as markup or nothing follows, and a piece with
other contents still begins with `<`.

**Results.**
* `Text.splitAt?_append_of_not_infix`: a text is cut at its closing characters if they do not occur
  before.
* `pieces_eq_ok_iff_readBack`: the pieces of a text are those that are read one before the other.
* `Piece.Reading.append`: what follows a piece of markup does not decide how it is read.
* `ReadBack.rewritten`: a piece with other contents is read in the place of the piece.
-/

namespace NuspecLint
namespace Text

/-- What follows an occurrence does not decide where the first one is. -/
theorem splitAt?_append
    {t s before after : List Char} (v : List Char)
    (h : splitAt? t s = some (before, after)) :
    splitAt? t (s ++ v) = some (before, after ++ v) := by
  induction s generalizing before after with
  | nil =>
      obtain ⟨rfl, rfl, rfl⟩ : before = [] ∧ t = [] ∧ after = [] := by
        simpa using eq_append_of_splitAt? h
      cases v <;> simp [splitAt?]
  | cons c s ih =>
      rw [splitAt?] at h
      split at h
      · next hpre =>
          simp only [Option.some.injEq, Prod.mk.injEq] at h
          obtain ⟨rfl, rfl⟩ := h
          have hlong := (List.isPrefixOf_iff_prefix.mp hpre).trans (List.prefix_append (c :: s) v)
          rw [List.cons_append] at hlong
          rw [List.cons_append, splitAt?, if_pos (List.isPrefixOf_iff_prefix.mpr hlong),
            ← List.cons_append,
            List.drop_append_of_le_length (List.isPrefixOf_iff_prefix.mp hpre).length_le]
      · next hpre =>
          obtain ⟨cut, hcut, heq⟩ := Option.map_eq_some_iff.mp h
          simp only [Prod.mk.injEq] at heq
          obtain ⟨rfl, rfl⟩ := heq
          have hlength : t.length ≤ (c :: s).length := by
            have hs := congrArg List.length (eq_append_of_splitAt? hcut)
            simp only [List.length_append] at hs
            rw [List.length_cons]
            omega
          have hlong : ¬ t.isPrefixOf (c :: (s ++ v)) = true := by
            rw [List.isPrefixOf_iff_prefix] at hpre ⊢
            intro hfits
            exact hpre (List.prefix_of_prefix_length_le hfits
              (List.prefix_append (c :: s) v) hlength)
          rw [List.cons_append, splitAt?, if_neg hlong, ih hcut]
          rfl

/--
A text is cut at closing characters that do not occur before; the last of them, which is none of
the others, keeps an occurrence from beginning earlier.
-/
theorem splitAt?_append_of_not_infix
    {front u : List Char} {last : Char} (v : List Char)
    (hlast : last ∉ front)
    (hu : ¬ front ++ [last] <:+: u) :
    splitAt? (front ++ [last]) (u ++ (front ++ [last] ++ v)) = some (u, v) := by
  apply splitAt?_append_of_first (by simp)
  intro w hw hne hpre
  by_cases hlength : (front ++ [last]).length ≤ w.length
  · have hwithin := List.prefix_of_prefix_length_le hpre (List.prefix_append w _) hlength
    exact hu (hwithin.isInfix.trans hw.isInfix)
  · have hpos := List.length_pos_iff.mpr hne
    rw [List.length_append, List.length_singleton] at hlength
    -- The last character of this occurrence is one of the others of the next.
    have hget : (w ++ (front ++ [last] ++ v))[front.length]? = some last := by
      obtain ⟨x, hx⟩ := hpre
      rw [← hx]
      simp
    rw [List.getElem?_append_right (by omega), List.append_assoc,
      List.getElem?_append_left (by omega)] at hget
    exact hlast (List.mem_of_getElem? hget)

end Text

namespace Markup

open Text

/-- Which enclosure a text opens is decided before its first `>`. -/
theorem Enclosure.opened?_append
    {s : List Char} (v : List Char)
    (h : '>' ∈ s) :
    opened? (s ++ v) = opened? s := by
  have hsame : ∀ kind : Enclosure,
      kind.opening.isPrefixOf (s ++ v) = kind.opening.isPrefixOf s := by
    intro kind
    rw [Bool.eq_iff_iff, List.isPrefixOf_iff_prefix, List.isPrefixOf_iff_prefix]
    constructor
    · intro hpre
      rcases List.prefix_or_prefix_of_prefix hpre (List.prefix_append s v) with hfits | hfits
      · exact hfits
      · have hmem := hfits.subset h
        cases kind <;> simp [opening] at hmem
    · intro hpre
      exact hpre.trans (List.prefix_append s v)
  unfold opened?
  simp only [hsame]

namespace StartTag

@[simp] theorem ofBody_name (name body : List Char) :
    (ofBody name body).name = name := by
  unfold ofBody
  split <;> rfl

theorem ofBody_selfClosing (name body : List Char) :
    (ofBody name body).selfClosing = decide (body.getLast? = some '/') := by
  unfold ofBody
  split <;> simp_all

theorem ofBody_injective
    {name name' body body' : List Char}
    (h : ofBody name body = ofBody name' body') :
    name = name' ∧ body = body' := by
  have hname := congrArg StartTag.name h
  have hraw := congrArg StartTag.raw h
  simp only [ofBody_name] at hname
  subst hname
  simpa [raw_ofBody] using hraw

/-- The text `<`, `name`, `body`, `>` is a start tag with exactly these parts. -/
structure Parts (name body : List Char) : Prop where
  name_ne_nil : name ≠ []
  isTagNameChar_of_mem : ∀ c ∈ name, isTagNameChar c = true
  head_not_name : ∀ c ∈ (body ++ ['>']).head?, isTagNameChar c = false
  tagBody : TagBody body

/-- A start tag that is read has a name and a body. -/
theorem exists_parts_of_read?
    {s rest : List Char} {tag : StartTag}
    (h : read? ('<' :: s) = some (tag, rest)) :
    ∃ name body, tag = ofBody name body ∧ Parts name body := by
  simp only [read?] at h
  split at h
  · simp at h
  · next hne =>
      obtain ⟨⟨body, after⟩, hcut, heq⟩ := Option.map_eq_some_iff.mp h
      simp only [Prod.mk.injEq] at heq
      have hhead := List.head?_dropWhile_not isTagNameChar s
      rw [eq_append_of_splitTagEnd? hcut] at hhead
      refine ⟨s.takeWhile isTagNameChar, body, heq.1.symm, by simpa using hne, ?_, ?_,
        tagBodyAfter_of_splitTagEnd? hcut⟩
      · intro c hc
        exact List.mem_takeWhile_imp hc
      · intro c hc
        cases body with
        | nil =>
            simp only [List.nil_append, List.head?_cons, Option.mem_some_iff] at hc
            rw [← hc]
            simpa using hhead
        | cons d body =>
            simp only [List.cons_append, List.head?_cons, Option.mem_some_iff] at hc
            rw [← hc]
            simpa using hhead

end StartTag

namespace Piece

/-- A start tag is read from its parts, whatever follows. -/
theorem reading_startTag
    {name body : List Char} (rest : List Char)
    (h : StartTag.Parts name body) :
    Reading ((startTag (.ofBody name body)).raw ++ rest) (.startTag (.ofBody name body)) rest := by
  have hraw : (startTag (.ofBody name body)).raw ++ rest =
      '<' :: (name ++ (body ++ '>' :: rest)) := by
    simp [raw, StartTag.raw_ofBody]
  rw [hraw]
  exact Reading.startTag rfl
    (StartTag.read?_append rest h.name_ne_nil h.isTagNameChar_of_mem h.head_not_name h.tagBody)

/-- What follows a piece of markup does not decide how the piece is read. -/
theorem Reading.append
    {s rest : List Char} {p : Piece} (v : List Char)
    (h : Reading s p rest)
    (hp : ∀ run, p ≠ .text run) :
    Reading (s ++ v) p (rest ++ v) := by
  cases h with
  | @skipped kind body _ hopened hkind hcut =>
      have hmem : '>' ∈ s := by
        rw [eq_append_of_splitAt? hcut]
        cases kind <;> simp [Enclosure.terminator]
      exact Reading.skipped ((Enclosure.opened?_append v hmem).trans hopened) hkind
        (splitAt?_append v hcut)
  | @cdata content _ hopened hcut =>
      have hmem : '>' ∈ s := by
        apply List.mem_of_mem_drop (i := Enclosure.cdata.opening.length)
        rw [eq_append_of_splitAt? hcut]
        simp [Enclosure.terminator]
      have hpre := List.isPrefixOf_iff_prefix.mp (Enclosure.isPrefixOf_of_opened? hopened)
      refine Reading.cdata ((Enclosure.opened?_append v hmem).trans hopened) ?_
      rw [List.drop_append_of_le_length hpre.length_le]
      exact splitAt?_append v hcut
  | @endTag t _ tag hs hread =>
      subst hs
      obtain ⟨gap, hraw, hne, hname, hgap⟩ := EndTag.spelled_of_read? hread
      obtain rfl : tag.gap = gap := by
        simpa [EndTag.raw] using hraw
      have happend : '<' :: '/' :: t ++ v =
          '<' :: '/' :: (tag.name ++ (tag.gap ++ '>' :: (rest ++ v))) := by
        rw [EndTag.eq_append_of_read? hread, EndTag.raw]
        simp
      rw [happend]
      exact Reading.endTag rfl (EndTag.read?_append tag.gap (rest ++ v) hne hname hgap)
  | @startTag t _ tag hs hread =>
      subst hs
      obtain ⟨name, body, rfl, hparts⟩ := StartTag.exists_parts_of_read? hread
      rw [StartTag.eq_append_of_read? hread, List.append_assoc]
      exact reading_startTag (rest ++ v) hparts
  | @text c t hs hmarkup =>
      exact absurd rfl (hp _)

/-- A plain text without `<` is read up to the markup that follows it. -/
theorem reading_text
    {run rest : List Char}
    (hne : run ≠ [])
    (hrun : '<' ∉ run)
    (hrest : ∀ c ∈ rest.head?, c = '<') :
    Reading (run ++ rest) (.text run) rest := by
  obtain ⟨c, t, rfl⟩ := List.exists_cons_of_ne_nil hne
  simp only [List.mem_cons, not_or] at hrun
  have ht : ∀ d ∈ t, (d != '<') = true := by
    intro d hd
    rw [bne_iff_ne]
    rintro rfl
    exact hrun.2 hd
  have hboundary : ∀ d ∈ rest.head?, (d != '<') = false := by
    intro d hd
    simp [hrest d hd]
  obtain ⟨htake, hdrop⟩ := takeWhile_dropWhile_of_boundary ht hboundary
  have htext := Reading.text (s := c :: (t ++ rest)) rfl (fun hc => absurd hc.symm hrun.1)
  rwa [htake, hdrop] at htext

/-- Markup, or nothing, follows a plain text. -/
theorem Reading.head?_of_text
    {s run rest : List Char}
    (h : Reading s (.text run) rest) :
    ∀ c ∈ rest.head?, c = '<' := by
  cases h with
  | @text c t hs hmarkup =>
      intro d hd
      have hhead := List.head?_dropWhile_not (· != '<') t
      rw [Option.mem_def.mp hd] at hhead
      simpa using hhead

theorem Reading.ne_nil
    {s rest : List Char} {p : Piece}
    (h : Reading s p rest) :
    s ≠ [] := by
  rintro rfl
  cases h with
  | skipped hopened _ _ | cdata hopened _ =>
      obtain ⟨t, ht⟩ := Enclosure.exists_cons_of_opened? hopened
      cases ht
  | endTag hs _ | startTag hs _ | text hs _ =>
      cases hs

theorem Reading.raw_ne_nil
    {s rest : List Char} {p : Piece}
    (h : Reading s p rest) :
    p.raw ≠ [] := by
  obtain ⟨c, s, rfl⟩ := List.exists_cons_of_ne_nil h.ne_nil
  exact raw_ne_nil_of_next (next_of_reading h)

/-- A piece is read before any text that begins with markup exactly if the old one did. -/
theorem Reading.swap
    {rest rest' : List Char} {p : Piece}
    (h : Reading (p.raw ++ rest) p rest)
    (hplain : ∀ run, p = .text run → '<' ∉ run)
    (hhead : rest'.head? = rest.head?) :
    Reading (p.raw ++ rest') p rest' := by
  by_cases hp : ∃ run, p = .text run
  · obtain ⟨run, rfl⟩ := hp
    apply reading_text h.raw_ne_nil (hplain run rfl)
    rw [hhead]
    exact h.head?_of_text
  · have halone : Reading p.raw p [] := Reading.of_append h.raw_ne_nil h
    simpa using halone.append rest' (fun run hrun => hp ⟨run, hrun⟩)

end Piece

/-- Every piece is read where the pieces stand one after the other. -/
def ReadBack : List Piece → Prop
  | [] => True
  | p :: ps => Piece.Reading (p.raw ++ rawAll ps) p (rawAll ps) ∧ ReadBack ps

/-- What a scan that leaves nothing reads can be read back. -/
theorem Scan.Run.readBack
    {a last : Scan} {ps : List Piece}
    (h : Run a ps last)
    (hlast : last.rest = []) :
    ReadBack ps := by
  induction h with
  | refl a =>
      trivial
  | head hstep htail ih =>
      refine ⟨?_, ih hlast⟩
      have hrest := htail.rest_eq
      rw [hlast, List.append_nil] at hrest
      cases hstep with
      | read hnext =>
          have hreading := Piece.reading_of_next hnext
          rw [← Piece.raw_append_of_next hnext] at hreading
          rwa [← hrest]

theorem ReadBack.piecesAt_rawAll
    {ps : List Piece}
    (h : ReadBack ps)
    (pos : Nat) :
    piecesAt pos (rawAll ps) = .ok ps := by
  induction ps generalizing pos with
  | nil =>
      simp
  | cons p ps ih =>
      obtain ⟨hreading, htail⟩ := h
      obtain ⟨c, s, hs⟩ := List.exists_cons_of_ne_nil hreading.ne_nil
      rw [hs] at hreading
      rw [rawAll_cons, hs, piecesAt_cons_of_next pos (Piece.next_of_reading hreading), ih htail]
      rfl

/-- The pieces of a text are those that it consists of and that are read back from it. -/
theorem pieces_eq_ok_iff_readBack
    {source : List Char} {ps : List Piece} :
    pieces source = .ok ps ↔ source = rawAll ps ∧ ReadBack ps := by
  constructor
  · intro h
    obtain ⟨last, hrun, hlast⟩ := pieces_eq_ok_iff.mp h
    have hsource := hrun.rest_eq
    rw [hlast, List.append_nil] at hsource
    exact ⟨hsource, hrun.readBack hlast⟩
  · rintro ⟨rfl, h⟩
    exact h.piecesAt_rawAll 0

namespace TagBody

/-- What follows a tag body inside a tag body is one. -/
theorem of_append
    {u v : List Char}
    (h : TagBody (u ++ v))
    (hu : TagBody u) :
    TagBody v := by
  induction hu with
  | nil =>
      exact h
  | @plain c s hc _ ih =>
      rw [List.cons_append] at h
      generalize hrest : s ++ v = rest at h
      cases h with
      | plain _ hbody =>
          exact ih (hrest ▸ hbody)
      | quoted hquote _ _ =>
          rw [hc.1] at hquote
          cases hquote
  | @quoted quote inside s hquote hinside _ ih =>
      rw [List.cons_append, List.append_assoc, List.cons_append] at h
      generalize hrest : inside ++ quote :: (s ++ v) = rest at h
      cases h with
      | plain hc _ =>
          rw [hc.1] at hquote
          cases hquote
      | @quoted _ inside' s' _ hinside' hbody =>
          -- Both strings end at the first quote.
          have hcut := splitAt?_quote (s ++ v) hinside
          rw [hrest, splitAt?_quote s' hinside'] at hcut
          simp only [Option.some.injEq, Prod.mk.injEq] at hcut
          exact ih (hcut.2 ▸ hbody)

/-- The inside of a quoted string can be replaced. -/
theorem replace_quoted
    {front inside inside' back : List Char} {quote : Char}
    (h : TagBody (front ++ quote :: (inside ++ quote :: back)))
    (hfront : TagBody front)
    (hquote : isQuote quote = true)
    (hinside : quote ∉ inside)
    (hinside' : quote ∉ inside') :
    TagBody (front ++ quote :: (inside' ++ quote :: back)) := by
  have hstring : TagBody (quote :: (inside ++ [quote])) := by
    simpa using TagBody.quoted hquote hinside TagBody.nil
  have hback : TagBody back := by
    apply TagBody.of_append (u := quote :: (inside ++ [quote])) _ hstring
    simpa using h.of_append hfront
  exact hfront.append (TagBody.quoted hquote hinside' hback)

end TagBody

/--
The second piece is the first one with something else inside a comment, inside a processing
instruction or inside one quoted string of a start tag.
-/
inductive Piece.Rewritten : Piece → Piece → Prop
  | comment
      (c : List Char) {c' : List Char}
      (hclosed : ¬ ['-', '-', '>'] <:+: ['-', '-'] ++ c') :
      Rewritten
        (.skipped .comment (['<', '!', '-', '-'] ++ c))
        (.skipped .comment (['<', '!', '-', '-'] ++ c'))
  | instruction
      (c : List Char) {c' : List Char}
      (hclosed : ¬ ['?', '>'] <:+: ['?'] ++ c') :
      Rewritten
        (.skipped .instruction (['<', '?'] ++ c))
        (.skipped .instruction (['<', '?'] ++ c'))
  | quoted
      (name : List Char) {front : List Char} {quote : Char} {inside inside' : List Char}
      (back : List Char)
      (hfront : TagBody front)
      (hquote : isQuote quote = true)
      (hinside : quote ∉ inside)
      (hinside' : quote ∉ inside') :
      Rewritten
        (.startTag (.ofBody name (front ++ quote :: (inside ++ quote :: back))))
        (.startTag (.ofBody name (front ++ quote :: (inside' ++ quote :: back))))

namespace Piece

theorem reading_comment
    {c : List Char} (rest : List Char)
    (hclosed : ¬ ['-', '-', '>'] <:+: ['-', '-'] ++ c) :
    Reading ((skipped .comment (['<', '!', '-', '-'] ++ c)).raw ++ rest)
      (.skipped .comment (['<', '!', '-', '-'] ++ c)) rest := by
  have hbody : ¬ ['-', '-'] ++ ['>'] <:+: ['<', '!', '-', '-'] ++ c := by
    simpa [List.infix_cons_iff] using hclosed
  refine Reading.skipped ?_ (by decide) ?_
  · simp [raw, Enclosure.opened?, Enclosure.opening, List.isPrefixOf]
  · simpa [raw, Enclosure.terminator] using
      splitAt?_append_of_not_infix rest (by decide) hbody

theorem reading_instruction
    {c : List Char} (rest : List Char)
    (hclosed : ¬ ['?', '>'] <:+: ['?'] ++ c) :
    Reading ((skipped .instruction (['<', '?'] ++ c)).raw ++ rest)
      (.skipped .instruction (['<', '?'] ++ c)) rest := by
  have hbody : ¬ ['?'] ++ ['>'] <:+: ['<', '?'] ++ c := by
    simpa [List.infix_cons_iff] using hclosed
  refine Reading.skipped ?_ (by decide) ?_
  · simp [raw, Enclosure.opened?, Enclosure.opening, List.isPrefixOf]
  · simpa [raw, Enclosure.terminator] using
      splitAt?_append_of_not_infix rest (by decide) hbody

/-- A piece with other contents is read in the place of the piece. -/
theorem Reading.rewritten
    {rest : List Char} {p p' : Piece}
    (h : Reading (p.raw ++ rest) p rest)
    (hp : Rewritten p p') :
    Reading (p'.raw ++ rest) p' rest := by
  cases hp with
  | comment c hclosed =>
      exact reading_comment rest hclosed
  | instruction c hclosed =>
      exact reading_instruction rest hclosed
  | @quoted name front quote inside inside' back hfront hquote hinside hinside' =>
      cases h with
      | startTag hs hread =>
          rw [hs] at hread
          obtain ⟨name', body, heq, hparts⟩ := StartTag.exists_parts_of_read? hread
          obtain ⟨rfl, rfl⟩ := StartTag.ofBody_injective heq
          refine reading_startTag rest ⟨hparts.name_ne_nil, hparts.isTagNameChar_of_mem, ?_,
            hparts.tagBody.replace_quoted hfront hquote hinside hinside'⟩
          have hhead := hparts.head_not_name
          cases front <;> simpa using hhead

theorem Rewritten.head?_raw
    {p p' : Piece}
    (h : Rewritten p p') :
    p.raw.head? = some '<' ∧ p'.raw.head? = some '<' := by
  cases h with
  | comment | instruction =>
      simp [raw]
  | quoted =>
      simp [raw, StartTag.raw_ofBody]

end Piece

/-- No plain text among the pieces holds a `<`. -/
def PlainTexts (ps : List Piece) : Prop :=
  ∀ run, .text run ∈ ps → '<' ∉ run

theorem head?_rawAll_rewritten
    {before after : List Piece} {p p' : Piece}
    (hp : p.Rewritten p') :
    (rawAll (before ++ p' :: after)).head? = (rawAll (before ++ p :: after)).head? := by
  induction before with
  | nil =>
      obtain ⟨hold, hnew⟩ := hp.head?_raw
      simp [List.head?_append, hold, hnew]
  | cons q before ih =>
      simp only [List.cons_append, rawAll_cons, List.head?_append, ih]

/-- **A piece with other contents is read in the place of the piece, and all others as before.** -/
theorem ReadBack.rewritten
    {before after : List Piece} {p p' : Piece}
    (h : ReadBack (before ++ p :: after))
    (hplain : PlainTexts (before ++ p :: after))
    (hp : p.Rewritten p') :
    ReadBack (before ++ p' :: after) := by
  induction before with
  | nil =>
      exact ⟨h.1.rewritten hp, h.2⟩
  | cons q before ih =>
      obtain ⟨hreading, htail⟩ := h
      refine ⟨hreading.swap ?_ (head?_rawAll_rewritten hp), ih htail ?_⟩
      · rintro run rfl
        exact hplain run (by simp)
      · intro run hrun
        exact hplain run (List.mem_cons_of_mem q hrun)

end Markup
end NuspecLint
