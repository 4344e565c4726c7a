import NuspecLint.Markup.Piece
import Mathlib.Data.List.TakeWhile
import Mathlib.Tactic

/-!
# Patterns of markup

What the readers of tags and pieces accept, said without reading.

**Patterns.**  A start tag is `<`, a name, plain characters and closed quoted strings, and `>` or
`/>`.  An end tag is `</`, a name, white space and `>`.  An enclosure is opened by its first
characters and closed where its last characters occur for the first time.

**Results.**
* `StartTag.spelled_of_read?`, `StartTag.exists_read?_of_matches`, `EndTag.spelled_of_read?` and
  `EndTag.exists_read?_of_matches`: a tag is read exactly where its pattern stands.
* `Piece.reading_of_next` and `Piece.next_of_reading`: what the first piece of a text is.
* `Piece.Reading.not_markup`: a run of plain text holds no markup.
* `Piece.Reading.complete`: a skipped enclosure is complete.
-/

namespace NuspecLint
namespace Text

/-- The first occurrence is found. -/
theorem splitAt?_append_minimal
    {t s before after : List Char}
    (h : splitAt? t s = some (before, after))
    {u v : List Char}
    (hs : s = u ++ (t ++ v)) :
    before.length ≤ u.length := by
  induction s generalizing before after u with
  | nil =>
      have hb := eq_append_of_splitAt? h
      simp only [List.nil_eq, List.append_eq_nil_iff] at hb
      simp [hb.1.1]
  | cons c s ih =>
      simp only [splitAt?] at h
      split at h
      · simp only [Option.some.injEq, Prod.mk.injEq] at h
        simp [← h.1]
      · next hprefix =>
          obtain ⟨cut, hcut, heq⟩ := Option.map_eq_some_iff.mp h
          simp only [Prod.mk.injEq] at heq
          obtain ⟨rfl, rfl⟩ := heq
          cases u with
          | nil =>
              have hpre : t <+: c :: s := ⟨v, hs.symm⟩
              exact absurd (List.isPrefixOf_iff_prefix.mpr hpre) hprefix
          | cons d u =>
              simp only [List.cons_append, List.cons.injEq] at hs
              have hle := ih hcut hs.2
              simp only [List.length_cons]
              omega

/-- A text is cut at an occurrence that no other one comes before. -/
theorem splitAt?_append_of_first
    {t u v : List Char}
    (ht : t ≠ [])
    (hfirst : ∀ w, w <:+ u → w ≠ [] → ¬ t <+: w ++ (t ++ v)) :
    splitAt? t (u ++ (t ++ v)) = some (u, v) := by
  induction u with
  | nil =>
      obtain ⟨c, t, rfl⟩ := List.exists_cons_of_ne_nil ht
      simp [splitAt?]
  | cons c u ih =>
      have hnot := hfirst (c :: u) (List.suffix_refl _) (by simp)
      have htail := ih (fun w hw => hfirst w (hw.trans (List.suffix_cons c u)))
      rw [← List.isPrefixOf_iff_prefix, List.cons_append] at hnot
      rw [List.cons_append, splitAt?, if_neg hnot, htail]
      rfl

/-- A maximal run ends where its characters end. -/
theorem takeWhile_dropWhile_of_boundary
    {p : Char → Bool} {u v : List Char}
    (hu : ∀ c ∈ u, p c = true)
    (hv : ∀ c ∈ v.head?, p c = false) :
    (u ++ v).takeWhile p = u ∧ (u ++ v).dropWhile p = v := by
  rw [List.takeWhile_append_of_pos hu, List.dropWhile_append_of_pos hu]
  cases v with
  | nil =>
      simp
  | cons c v =>
      have hc := hv c (by simp)
      simp [hc]

end Text

namespace Markup

open Text

@[simp] theorem attributesAt_nil (offset : Nat) :
    attributesAt offset [] = [] := by
  rw [attributesAt.eq_def]

theorem attributesAt_cons_of_gap
    (offset : Nat)
    {c : Char} {s : List Char}
    (hc : isAttributeNameChar c = false) :
    attributesAt offset (c :: s) = attributesAt (offset + 1) s := by
  rw [attributesAt.eq_def]
  simp only [hc, Bool.false_eq_true, if_false]

theorem attributesAt_cons_of_read
    (offset : Nat)
    {c : Char} {s rest : List Char} {a : AttributeText}
    (hc : isAttributeNameChar c = true)
    (hread : AttributeText.read c s = (a, rest)) :
    attributesAt offset (c :: s) =
      ⟨a.name, a.value, offset, offset + a.raw.length⟩ ::
        attributesAt (offset + a.raw.length) rest := by
  rw [attributesAt.eq_def]
  simp only [hc, hread, if_true]

/-- A character that stands for itself between the name of a start tag and its end. -/
def IsPlain (c : Char) : Prop :=
  isQuote c = false ∧ c ≠ '<' ∧ c ≠ '>'

instance : DecidablePred IsPlain :=
  fun c => inferInstanceAs (Decidable (isQuote c = false ∧ c ≠ '<' ∧ c ≠ '>'))

/-- Plain characters and closed quoted strings. -/
inductive TagBody : List Char → Prop
  | nil :
      TagBody []
  | plain
      {c : Char} {s : List Char}
      (hc : IsPlain c)
      (hbody : TagBody s) :
      TagBody (c :: s)
  | quoted
      {quote : Char} {inside s : List Char}
      (hquote : isQuote quote = true)
      (hinside : quote ∉ inside)
      (hbody : TagBody s) :
      TagBody (quote :: (inside ++ quote :: s))

theorem TagBody.of_plain
    {s : List Char}
    (h : ∀ c ∈ s, IsPlain c) :
    TagBody s := by
  induction s with
  | nil =>
      exact TagBody.nil
  | cons c s ih =>
      exact TagBody.plain (h c (by simp)) (ih (fun d hd => h d (by simp [hd])))

theorem TagBody.append
    {u v : List Char}
    (hu : TagBody u)
    (hv : TagBody v) :
    TagBody (u ++ v) := by
  induction hu with
  | nil =>
      exact hv
  | plain hc _ ih =>
      exact TagBody.plain hc ih
  | quoted hquote hinside _ ih =>
      simpa using TagBody.quoted hquote hinside ih

/-- What a text may be after an open quote, if there is one. -/
def TagBodyAfter : Option Char → List Char → Prop
  | none, s => TagBody s
  | some quote, s =>
      ∃ inside body, s = inside ++ quote :: body ∧ quote ∉ inside ∧ TagBody body

/-- The text is a start tag called `name`. -/
def StartTag.Spelled (name s : List Char) : Prop :=
  ∃ body close,
    s = '<' :: (name ++ (body ++ (close ++ ['>']))) ∧
    name ≠ [] ∧ (∀ c ∈ name, isTagNameChar c = true) ∧
    TagBody body ∧ (close = [] ∨ close = ['/'])

/-- The text is an end tag called `name`. -/
def EndTag.Spelled (name s : List Char) : Prop :=
  ∃ gap,
    s = '<' :: '/' :: (name ++ (gap ++ ['>'])) ∧
    name ≠ [] ∧ (∀ c ∈ name, isEndNameChar c = true) ∧
    ∀ c ∈ gap, isBlank c = true

/-- A start tag stands at the front of the text. -/
def StartTag.Matches (s : List Char) : Prop :=
  ∃ name tag rest, s = tag ++ rest ∧ Spelled name tag

/-- An end tag stands at the front of the text. -/
def EndTag.Matches (s : List Char) : Prop :=
  ∃ name tag rest, s = tag ++ rest ∧ Spelled name tag

theorem isPlain_of_isTagNameChar
    {c : Char}
    (h : isTagNameChar c = true) :
    IsPlain c := by
  simp only [isTagNameChar, Bool.and_eq_true, Bool.not_eq_true', bne_iff_ne] at h
  exact ⟨by tauto, by tauto, by tauto⟩

section SplitTagEnd

/-- Plain characters do not decide where a tag ends. -/
theorem splitTagEnd?_append_plain
    {u : List Char} (v : List Char)
    (hu : ∀ c ∈ u, IsPlain c) :
    splitTagEnd? none (u ++ v) =
      (splitTagEnd? none v).map fun cut => (u ++ cut.1, cut.2) := by
  induction u with
  | nil =>
      simp
  | cons c u ih =>
      obtain ⟨hquote, hlt, hgt⟩ := hu c (by simp)
      have htail := ih (fun d hd => hu d (by simp [hd]))
      simp only [List.cons_append, splitTagEnd?, hgt, hlt, hquote, Bool.false_eq_true,
        if_false, htail, Option.map_map]
      rfl

/-- Nor do closed quoted strings. -/
theorem splitTagEnd?_append_quoted
    {quote : Char} {inside : List Char} (v : List Char)
    (hinside : quote ∉ inside) :
    splitTagEnd? (some quote) (inside ++ quote :: v) =
      (splitTagEnd? none v).map fun cut => (inside ++ quote :: cut.1, cut.2) := by
  induction inside with
  | nil =>
      simp [splitTagEnd?]
  | cons c inside ih =>
      simp only [List.mem_cons, not_or] at hinside
      have hc : c ≠ quote := fun h => hinside.1 h.symm
      simp only [List.cons_append, splitTagEnd?, hc, if_false, ih hinside.2, Option.map_map]
      rfl

theorem splitTagEnd?_append_body
    {body : List Char} (v : List Char)
    (h : TagBody body) :
    splitTagEnd? none (body ++ v) =
      (splitTagEnd? none v).map fun cut => (body ++ cut.1, cut.2) := by
  induction h with
  | nil =>
      simp
  | @plain c s hc _ ih =>
      have hone := splitTagEnd?_append_plain (u := [c]) (s ++ v) (by simpa using hc)
      simp only [List.cons_append, List.nil_append] at hone
      rw [List.cons_append, hone, ih, Option.map_map]
      rfl
  | @quoted quote inside s hquote hinside _ ih =>
      have hgt : quote ≠ '>' := by
        rintro rfl
        simp [isQuote] at hquote
      have hlt : quote ≠ '<' := by
        rintro rfl
        simp [isQuote] at hquote
      have hstring := splitTagEnd?_append_quoted (s ++ v) hinside
      simp only [List.cons_append, List.append_assoc, splitTagEnd?, hgt, hlt, hquote, if_true,
        if_false, hstring, ih, Option.map_map]
      rfl

/-- A tag ends with the `>` behind its body. -/
theorem splitTagEnd?_of_tagBody
    {body : List Char} (rest : List Char)
    (h : TagBody body) :
    splitTagEnd? none (body ++ '>' :: rest) = some (body, rest) := by
  rw [splitTagEnd?_append_body _ h]
  simp [splitTagEnd?]

/-- What stands before the end of a tag is made of plain characters and closed strings. -/
theorem tagBodyAfter_of_splitTagEnd?
    {quote : Option Char} {s before after : List Char}
    (h : splitTagEnd? quote s = some (before, after)) :
    TagBodyAfter quote before := by
  induction s generalizing quote before after with
  | nil =>
      cases quote <;> simp [splitTagEnd?] at h
  | cons c s ih =>
      cases quote with
      | none =>
          simp only [splitTagEnd?] at h
          split at h
          · simp only [Option.some.injEq, Prod.mk.injEq] at h
            rw [← h.1]
            exact TagBody.nil
          · next hgt =>
              split at h
              · simp at h
              · next hlt =>
                  obtain ⟨cut, hcut, heq⟩ := Option.map_eq_some_iff.mp h
                  simp only [Prod.mk.injEq] at heq
                  obtain ⟨rfl, rfl⟩ := heq
                  have htail := ih hcut
                  cases hquote : isQuote c with
                  | true =>
                      simp only [hquote, if_true] at htail
                      obtain ⟨inside, body, hbefore, hinside, hbody⟩ := htail
                      rw [hbefore]
                      exact TagBody.quoted hquote hinside hbody
                  | false =>
                      simp only [hquote, Bool.false_eq_true, if_false] at htail
                      exact TagBody.plain ⟨hquote, hlt, hgt⟩ htail
      | some q =>
          simp only [splitTagEnd?] at h
          obtain ⟨cut, hcut, heq⟩ := Option.map_eq_some_iff.mp h
          simp only [Prod.mk.injEq] at heq
          obtain ⟨rfl, rfl⟩ := heq
          have htail := ih hcut
          by_cases hc : c = q
          · simp only [hc, if_true] at htail
            exact ⟨[], cut.1, by simp [hc], by simp, htail⟩
          · simp only [hc, if_false] at htail
            obtain ⟨inside, body, hbefore, hinside, hbody⟩ := htail
            refine ⟨c :: inside, body, by simp [hbefore], ?_, hbody⟩
            simp only [List.mem_cons, not_or]
            exact ⟨fun h => hc h.symm, hinside⟩

end SplitTagEnd

/-- A start tag that is read has the pattern of one. -/
theorem StartTag.spelled_of_read?
    {s rest : List Char} {tag : StartTag}
    (h : read? ('<' :: s) = some (tag, rest)) :
    Spelled tag.name tag.raw := by
  simp only [read?] at h
  split at h
  · simp at h
  · next hne =>
      obtain ⟨cut, hcut, heq⟩ := Option.map_eq_some_iff.mp h
      simp only [Prod.mk.injEq] at heq
      obtain ⟨rfl, rfl⟩ := heq
      have hname : ∀ body, (ofBody (s.takeWhile isTagNameChar) body).name =
          s.takeWhile isTagNameChar := by
        intro body
        unfold ofBody
        split <;> rfl
      rw [hname, raw_ofBody]
      refine ⟨cut.1, [], by simp, by simpa using hne, ?_, ?_, Or.inl rfl⟩
      · intro c hc
        exact List.mem_takeWhile_imp hc
      · exact tagBodyAfter_of_splitTagEnd? hcut

/-- A start tag is read wherever its pattern stands. -/
theorem StartTag.exists_read?_of_matches
    {s : List Char}
    (h : Matches s) :
    ∃ tag rest, read? s = some (tag, rest) := by
  obtain ⟨name, _, rest, rfl, body, close, rfl, hne, hname, hbody, hclose⟩ := h
  have hslash : ∀ c ∈ close, IsPlain c := by
    rcases hclose with rfl | rfl
    · simp
    · simp [IsPlain, isQuote]
  have hsplit : splitTagEnd? none (name ++ (body ++ (close ++ '>' :: rest))) =
      some (name ++ (body ++ close), rest) := by
    rw [splitTagEnd?_append_plain _ (fun c hc => isPlain_of_isTagNameChar (hname c hc)),
      splitTagEnd?_append_body _ hbody, splitTagEnd?_append_plain _ hslash]
    simp [splitTagEnd?]
  have happend : '<' :: (name ++ (body ++ (close ++ ['>']))) ++ rest =
      '<' :: (name ++ (body ++ (close ++ '>' :: rest))) := by
    simp
  rw [happend]
  generalize hs : name ++ (body ++ (close ++ '>' :: rest)) = s at hsplit
  have hrun : s.takeWhile isTagNameChar ≠ [] := by
    rw [← hs, List.takeWhile_append_of_pos hname]
    simp [hne]
  -- The name that is read may be longer than the given one, by plain characters of the body.
  rw [← List.takeWhile_append_dropWhile (p := isTagNameChar) (l := s),
    splitTagEnd?_append_plain _
      (fun c hc => isPlain_of_isTagNameChar (List.mem_takeWhile_imp hc))] at hsplit
  obtain ⟨cut, hcut, _⟩ := Option.map_eq_some_iff.mp hsplit
  refine ⟨ofBody (s.takeWhile isTagNameChar) cut.1, cut.2, ?_⟩
  simp [read?, hrun, hcut]

/-- An end tag that is read has the pattern of one. -/
theorem EndTag.spelled_of_read?
    {s rest : List Char} {tag : EndTag}
    (h : read? ('<' :: '/' :: s) = some (tag, rest)) :
    Spelled tag.name tag.raw := by
  simp only [read?] at h
  split at h
  · simp at h
  · next hne =>
      split at h
      · simp at h
      · split at h
        · simp only [Option.some.injEq, Prod.mk.injEq] at h
          obtain ⟨rfl, rfl⟩ := h
          refine ⟨_, rfl, by simpa using hne, ?_, ?_⟩
          · intro c hc
            exact List.mem_takeWhile_imp hc
          · intro c hc
            exact List.mem_takeWhile_imp hc
        · simp at h

/-- An end tag is read up to its end, whatever follows. -/
theorem EndTag.read?_append
    {name : List Char}
    (gap rest : List Char)
    (hne : name ≠ [])
    (hname : ∀ c ∈ name, isEndNameChar c = true)
    (hgap : ∀ c ∈ gap, isBlank c = true) :
    read? ('<' :: '/' :: (name ++ (gap ++ '>' :: rest))) = some (⟨name, gap⟩, rest) := by
  have hboundary : ∀ c ∈ (gap ++ '>' :: rest).head?, isEndNameChar c = false := by
    cases gap with
    | nil =>
        simp [isEndNameChar]
    | cons c gap =>
        have hc := hgap c (by simp)
        simp [isEndNameChar, hc]
  have hclose : ∀ c ∈ ('>' :: rest).head?, isBlank c = false := by
    simp [isBlank]
  obtain ⟨htakeName, hdropName⟩ := takeWhile_dropWhile_of_boundary hname hboundary
  obtain ⟨htakeGap, hdropGap⟩ := takeWhile_dropWhile_of_boundary hgap hclose
  simp [read?, htakeName, hdropName, htakeGap, hdropGap, hne]

/-- An end tag is read wherever its pattern stands. -/
theorem EndTag.exists_read?_of_matches
    {s : List Char}
    (h : Matches s) :
    ∃ tag rest, read? s = some (tag, rest) := by
  obtain ⟨name, _, rest, rfl, gap, rfl, hne, hname, hgap⟩ := h
  refine ⟨⟨name, gap⟩, rest, ?_⟩
  simpa using read?_append gap rest hne hname hgap

/-- An enclosure or a tag stands at the front of the text. -/
def BeginsMarkup (s : List Char) : Prop :=
  (∃ kind : Enclosure, kind.opening <+: s) ∨ EndTag.Matches s ∨ StartTag.Matches s

theorem BeginsMarkup.exists_cons
    {s : List Char}
    (h : BeginsMarkup s) :
    ∃ t, s = '<' :: t := by
  rcases h with ⟨kind, t, rfl⟩ | ⟨name, _, rest, rfl, gap, rfl, _⟩ |
    ⟨name, _, rest, rfl, body, close, rfl, _⟩
  · cases kind <;> exact ⟨_, rfl⟩
  · exact ⟨_, rfl⟩
  · exact ⟨_, rfl⟩

namespace Enclosure

theorem not_prefix_of_opened?_eq_none
    {s : List Char}
    (h : opened? s = none)
    (kind : Enclosure) :
    ¬ kind.opening <+: s := by
  intro hprefix
  have hall := List.find?_eq_none.mp h kind (by cases kind <;> simp)
  exact hall (List.isPrefixOf_iff_prefix.mpr hprefix)

theorem exists_cons_of_opened?
    {kind : Enclosure} {s : List Char}
    (h : opened? s = some kind) :
    ∃ t, s = '<' :: t := by
  obtain ⟨t, rfl⟩ := List.isPrefixOf_iff_prefix.mp (isPrefixOf_of_opened? h)
  cases kind <;> exact ⟨_, rfl⟩

/-- An enclosure is told by the character after its `<`. -/
theorem opened?_eq_none_of_second
    {c : Char} {s : List Char}
    (hmark : c ≠ '!')
    (hquery : c ≠ '?') :
    opened? ('<' :: c :: s) = none := by
  rw [opened?, List.find?_eq_none]
  intro kind _
  cases kind <;> simp [opening, List.isPrefixOf, hmark.symm, hquery.symm]

/-- The text opens an enclosure and closes it with its last characters, not before. -/
structure Complete (kind : Enclosure) (s : List Char) : Prop where
  opened : opened? s = some kind
  closed : kind.terminator <:+ s
  minimal : ∀ t, t <+: s → kind.terminator <:+ t → t = s

/-- An enclosure is opened by its first characters, whatever follows them. -/
theorem opened?_of_prefix
    {kind : Enclosure} {s t : List Char}
    (h : opened? s = some kind)
    (ht : t <+: s)
    (hlen : kind.opening.length ≤ t.length) :
    opened? t = some kind := by
  have hkind : kind.opening <+: t :=
    List.prefix_of_prefix_length_le
      (List.isPrefixOf_iff_prefix.mp (isPrefixOf_of_opened? h)) ht hlen
  have hother : ∀ other : Enclosure,
      other.opening.isPrefixOf s = false → other.opening.isPrefixOf t = false := by
    intro other hs
    rw [Bool.eq_false_iff] at hs ⊢
    intro hpre
    exact hs (List.isPrefixOf_iff_prefix.mpr
      ((List.isPrefixOf_iff_prefix.mp hpre).trans ht))
  have hkind' := List.isPrefixOf_iff_prefix.mpr hkind
  unfold opened? at h ⊢
  obtain ⟨_, before, after, hlist, hbefore⟩ := List.find?_eq_some_iff_append.mp h
  refine List.find?_eq_some_iff_append.mpr ⟨hkind', before, after, hlist, ?_⟩
  intro other hmem
  have hs := hbefore other hmem
  simp only [Bool.not_eq_true'] at hs ⊢
  exact hother other hs

/-- The closing characters of an enclosure cannot come before its opening ones are complete. -/
theorem opening_length_le
    {kind : Enclosure} {s before after : List Char}
    (hopen : kind.opening <+: s)
    (hs : s = before ++ (kind.terminator ++ after))
    (hkind : kind ≠ .cdata) :
    kind.opening.length ≤ (before ++ kind.terminator).length := by
  obtain ⟨tail, rfl⟩ := hopen
  cases kind with
  | cdata =>
      exact absurd rfl hkind
  | instruction =>
      simp [opening, terminator]
  | declaration =>
      cases before with
      | nil =>
          simp [opening, terminator] at hs
      | cons c before =>
          simp [opening, terminator]
  | comment =>
      cases before with
      | nil =>
          simp [opening, terminator] at hs
      | cons c before =>
          simp [opening, terminator]

end Enclosure

namespace Piece

/-- How a piece is read at the front of the text `s`, which goes on with `rest`. -/
inductive Reading (s : List Char) : Piece → List Char → Prop
  | skipped
      {kind : Enclosure} {body rest : List Char}
      (hopened : Enclosure.opened? s = some kind)
      (hkind : kind ≠ .cdata)
      (hcut : splitAt? kind.terminator s = some (body, rest)) :
      Reading s (.skipped kind body) rest
  | cdata
      {content rest : List Char}
      (hopened : Enclosure.opened? s = some .cdata)
      (hcut : splitAt? Enclosure.cdata.terminator (s.drop Enclosure.cdata.opening.length) =
        some (content, rest)) :
      Reading s (.cdata content) rest
  | endTag
      {t rest : List Char} {tag : EndTag}
      (hs : s = '<' :: '/' :: t)
      (hread : EndTag.read? s = some (tag, rest)) :
      Reading s (.endTag tag) rest
  | startTag
      {t rest : List Char} {tag : StartTag}
      (hs : s = '<' :: t)
      (hread : StartTag.read? s = some (tag, rest)) :
      Reading s (.startTag tag) rest
  | text
      {c : Char} {t : List Char}
      (hs : s = c :: t)
      (hmarkup : c = '<' → Enclosure.opened? s = none ∧ ofTag? s = none) :
      Reading s (.text (c :: t.takeWhile (· != '<'))) (t.dropWhile (· != '<'))

theorem reading_of_ofEnclosure?
    {kind : Enclosure} {s rest : List Char} {p : Piece}
    (hopened : Enclosure.opened? s = some kind)
    (h : ofEnclosure? kind s = some (p, rest)) :
    Reading s p rest := by
  unfold ofEnclosure? at h
  split at h
  · obtain ⟨cut, hcut, heq⟩ := Option.map_eq_some_iff.mp h
    simp only [Prod.mk.injEq] at heq
    obtain ⟨rfl, rfl⟩ := heq
    exact Reading.cdata hopened hcut
  · next hkind =>
      obtain ⟨cut, hcut, heq⟩ := Option.map_eq_some_iff.mp h
      simp only [Prod.mk.injEq] at heq
      obtain ⟨rfl, rfl⟩ := heq
      exact Reading.skipped hopened hkind hcut

theorem reading_of_ofTag?
    {t rest : List Char} {p : Piece}
    (h : ofTag? ('<' :: t) = some (p, rest)) :
    Reading ('<' :: t) p rest := by
  unfold ofTag? at h
  split at h
  · next u hu =>
      obtain ⟨found, hfound, heq⟩ := Option.map_eq_some_iff.mp h
      simp only [Prod.mk.injEq] at heq
      obtain ⟨rfl, rfl⟩ := heq
      exact Reading.endTag hu hfound
  · obtain ⟨found, hfound, heq⟩ := Option.map_eq_some_iff.mp h
    simp only [Prod.mk.injEq] at heq
    obtain ⟨rfl, rfl⟩ := heq
    exact Reading.startTag rfl hfound

/-- What the first piece of a text can be. -/
theorem reading_of_next
    {c : Char} {s rest : List Char} {p : Piece}
    (h : next c s = .ok (p, rest)) :
    Reading (c :: s) p rest := by
  unfold next at h
  split at h
  · next hc =>
      subst hc
      split at h
      · next kind hkind =>
          split at h
          · next found hfound =>
              simp only [Except.ok.injEq] at h
              subst h
              exact reading_of_ofEnclosure? hkind hfound
          · simp at h
      · next hnone =>
          simp only [Except.ok.injEq] at h
          cases htag : ofTag? ('<' :: s) with
          | none =>
              rw [htag, Option.getD_none] at h
              cases h
              exact Reading.text rfl (fun _ => ⟨hnone, htag⟩)
          | some found =>
              rw [htag, Option.getD_some] at h
              rw [h] at htag
              exact reading_of_ofTag? htag
  · next hc =>
      simp only [Except.ok.injEq] at h
      cases h
      exact Reading.text rfl (fun h => absurd h hc)

theorem ofTag?_of_ne_slash
    {c : Char} {t : List Char}
    (hc : c ≠ '/') :
    ofTag? ('<' :: c :: t) =
      (StartTag.read? ('<' :: c :: t)).map fun found => (startTag found.1, found.2) := by
  unfold ofTag?
  split
  · next u hu =>
      simp only [List.cons.injEq, true_and] at hu
      exact absurd hu.1 hc
  · rfl

theorem next_of_opened?
    {c : Char} {s : List Char} {kind : Enclosure}
    (h : Enclosure.opened? (c :: s) = some kind) :
    next c s = ((ofEnclosure? kind (c :: s)).map Except.ok).getD (.error kind) := by
  obtain ⟨t, ht⟩ := Enclosure.exists_cons_of_opened? h
  obtain ⟨rfl, rfl⟩ := List.cons.inj ht
  simp only [next, if_true, h]
  cases ofEnclosure? kind ('<' :: s) with
  | none =>
      rfl
  | some found =>
      rfl

theorem next_of_opened?_eq_none
    {s : List Char}
    (h : Enclosure.opened? ('<' :: s) = none) :
    next '<' s = .ok ((ofTag? ('<' :: s)).getD (ofText '<' s)) := by
  simp only [next, if_true, h]

theorem next_of_ne
    {c : Char} {s : List Char}
    (h : c ≠ '<') :
    next c s = .ok (ofText c s) := by
  simp only [next, h, if_false]

theorem ofEnclosure?_of_ne_cdata
    {kind : Enclosure} {s : List Char}
    (h : kind ≠ .cdata) :
    ofEnclosure? kind s =
      (splitAt? kind.terminator s).map fun cut => (skipped kind cut.1, cut.2) := by
  cases kind with
  | cdata =>
      exact absurd rfl h
  | comment | instruction | declaration =>
      rfl

/-- What can be the first piece of a text is its first piece. -/
theorem next_of_reading
    {c : Char} {s rest : List Char} {p : Piece}
    (h : Reading (c :: s) p rest) :
    next c s = .ok (p, rest) := by
  cases h with
  | skipped hopened hkind hcut =>
      simp [next_of_opened? hopened, ofEnclosure?_of_ne_cdata hkind, hcut]
  | cdata hopened hcut =>
      simp [next_of_opened? hopened, ofEnclosure?, hcut]
  | @endTag t _ tag hs hread =>
      obtain ⟨rfl, rfl⟩ := List.cons.inj hs
      rw [next_of_opened?_eq_none (Enclosure.opened?_eq_none_of_second (by decide) (by decide))]
      simp [ofTag?, hread]
  | @startTag t _ tag hs hread =>
      obtain ⟨rfl, rfl⟩ := List.cons.inj hs
      obtain ⟨body, close, hraw, hne, hname, _⟩ := StartTag.spelled_of_read? hread
      obtain ⟨d, name, hd⟩ := List.exists_cons_of_ne_nil hne
      have hchar := hname d (by simp [hd])
      simp only [isTagNameChar, Bool.and_eq_true, bne_iff_ne] at hchar
      have hs : ∃ u, s = d :: u := by
        have happend := StartTag.eq_append_of_read? hread
        rw [hraw, hd] at happend
        exact ⟨_, (List.cons.inj happend).2⟩
      obtain ⟨u, rfl⟩ := hs
      rw [next_of_opened?_eq_none (Enclosure.opened?_eq_none_of_second (by tauto) (by tauto)),
        ofTag?_of_ne_slash (by tauto), hread]
      rfl
  | @text d t hs hmarkup =>
      obtain ⟨rfl, rfl⟩ := List.cons.inj hs
      by_cases hc : c = '<'
      · subst hc
        obtain ⟨hopened, htag⟩ := hmarkup rfl
        rw [next_of_opened?_eq_none hopened, htag]
        rfl
      · rw [next_of_ne hc]
        rfl

/-- Where no piece of markup is read, none stands. -/
theorem not_beginsMarkup
    {s : List Char}
    (hopened : Enclosure.opened? s = none)
    (htag : ofTag? s = none) :
    ¬ BeginsMarkup s := by
  rintro (⟨kind, hkind⟩ | hend | hstart)
  · exact Enclosure.not_prefix_of_opened?_eq_none hopened kind hkind
  · obtain ⟨tag, rest, hread⟩ := EndTag.exists_read?_of_matches hend
    obtain ⟨name, _, after, rfl, gap, rfl, _⟩ := hend
    simp only [List.cons_append] at hread htag
    simp only [ofTag?, hread, Option.map_some, reduceCtorEq] at htag
  · obtain ⟨tag, rest, hread⟩ := StartTag.exists_read?_of_matches hstart
    obtain ⟨name, _, after, rfl, body, close, rfl, hne, hname, _⟩ := hstart
    cases name with
    | nil =>
        exact hne rfl
    | cons c name =>
        have hc : c ≠ '/' := by
          rintro rfl
          have hslash := hname '/' (by simp)
          simp [isTagNameChar] at hslash
        simp only [List.cons_append] at hread htag
        rw [ofTag?_of_ne_slash hc, hread] at htag
        simp at htag

/-- A run of plain text holds no markup. -/
theorem Reading.not_markup
    {s run rest : List Char}
    (h : Reading s (.text run) rest)
    {i : Nat}
    (hi : i < run.length) :
    ¬ BeginsMarkup (s.drop i) := by
  cases h with
  | @text c t hs hmarkup =>
      subst hs
      cases i with
      | zero =>
          by_cases hc : c = '<'
          · obtain ⟨hopened, htag⟩ := hmarkup hc
            exact not_beginsMarkup hopened htag
          · intro hbegins
            obtain ⟨u, hu⟩ := hbegins.exists_cons
            simp only [List.drop_zero, List.cons.injEq] at hu
            exact hc hu.1
      | succ i =>
          -- Behind its first character the run has no `<`.
          intro hbegins
          obtain ⟨u, hu⟩ := hbegins.exists_cons
          simp only [List.length_cons, Nat.add_lt_add_iff_right] at hi
          have hget : t[i]? = some '<' := by
            have hhead := congrArg List.head? hu
            simpa [List.head?_drop] using hhead
          rw [← List.takeWhile_append_dropWhile (p := (· != '<')) (l := t),
            List.getElem?_append_left hi] at hget
          have hmem := List.mem_takeWhile_imp (List.mem_of_getElem? hget)
          simp at hmem

/-- An enclosure that is skipped is complete. -/
theorem Reading.complete
    {s body rest : List Char} {kind : Enclosure}
    (h : Reading s (.skipped kind body) rest) :
    kind.Complete (body ++ kind.terminator) := by
  cases h with
  | skipped hopened hkind hcut =>
      have hs : s = body ++ (kind.terminator ++ rest) := by
        rw [eq_append_of_splitAt? hcut, List.append_assoc]
      have hprefix : body ++ kind.terminator <+: s := by
        rw [hs, ← List.append_assoc]
        exact List.prefix_append _ _
      have hopen := List.isPrefixOf_iff_prefix.mp (Enclosure.isPrefixOf_of_opened? hopened)
      constructor
      · exact Enclosure.opened?_of_prefix hopened hprefix
          (Enclosure.opening_length_le hopen hs hkind)
      · exact List.suffix_append _ _
      · rintro t ht ⟨u, rfl⟩
        obtain ⟨v, hv⟩ := ht.trans hprefix
        have hle := splitAt?_append_minimal hcut (u := u) (v := v) (by simp [← hv])
        apply ht.eq_of_length_le
        simp only [List.length_append]
        omega

end Piece

end Markup
end NuspecLint
