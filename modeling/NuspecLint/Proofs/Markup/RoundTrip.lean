import NuspecLint.Proofs.Markup.Laminar
import NuspecLint.Proofs.Markup.Outline
import NuspecLint.Proofs.Markup.Pattern

/-!
# Parsing what was written

A manifest that is written down and parsed is found again, every part of it at the place at
which it was written.

**Strategy.**  What an outline is written as is read piece by piece, whatever follows it and
whatever is open around it, and adds the laid-out node to the innermost open element.  The one
thing that must not follow a plain text is another one, since the two would be read as one run.

**Results.**
* `attributesAt_renderAll`: the attributes of a tag are found again.
* `Scan.readsForest_of_separated`: a forest is read as its layout.
* `parse_render`: parsing undoes writing.
-/

namespace NuspecLint
namespace Markup

open Text

section Attributes

namespace QuotedAttribute

theorem exists_name_eq_cons (a : QuotedAttribute) :
    ∃ c s, a.name = c :: s ∧ isAttributeNameChar c = true ∧
      ∀ d ∈ s, isAttributeNameChar d = true := by
  obtain ⟨c, s, hname⟩ := List.exists_cons_of_ne_nil a.name_ne_nil
  have hchars : ∀ d ∈ c :: s, isAttributeNameChar d = true := by
    rw [← hname]
    exact fun d hd => a.isAttributeNameChar_of_mem hd
  exact ⟨c, s, hname, hchars c (by simp), fun d hd => hchars d (by simp [hd])⟩

end QuotedAttribute

theorem splitAt?_quote
    {quote : Char} {value : List Char}
    (rest : List Char)
    (h : quote ∉ value) :
    splitAt? [quote] (value ++ quote :: rest) = some (value, rest) := by
  apply splitAt?_append_of_first (t := [quote]) (by simp)
  intro w hw hne hprefix
  obtain ⟨c, w, rfl⟩ := List.exists_cons_of_ne_nil hne
  have hc : quote = c := by simpa using hprefix
  exact h (hw.subset (by simp [hc]))

/-- A quoted value is read up to its closing quote. -/
theorem Assignment.read?_quoted
    {quote : Char} {value : List Char}
    (rest : List Char)
    (hquote : isQuote quote = true)
    (hvalue : quote ∉ value) :
    read? ('=' :: quote :: (value ++ quote :: rest)) =
      some (⟨[], [], .quoted quote value⟩, rest) := by
  have hequals : isBlank '=' = false := by decide
  have hblank : isBlank quote = false := by
    simp only [isQuote, Bool.or_eq_true, beq_iff_eq] at hquote
    rcases hquote with rfl | rfl <;> decide
  simp [read?, ValueText.read?, hequals, hblank, hquote, splitAt?_quote rest hvalue]

/-- An attribute that was written is read again. -/
theorem AttributeText.read_render
    (a : QuotedAttribute) (rest : List Char)
    {c : Char} {s : List Char}
    (hname : a.name = c :: s)
    (hs : ∀ d ∈ s, isAttributeNameChar d = true) :
    read c (s ++ '=' :: a.quote :: (a.value ++ a.quote :: rest)) =
      (⟨a.name, some ⟨[], [], .quoted a.quote a.value⟩⟩, rest) := by
  have hequals : isAttributeNameChar '=' = false := by decide
  simp [read, List.takeWhile_append_of_pos hs, List.dropWhile_append_of_pos hs, hequals,
    Assignment.read?_quoted rest a.isQuote_quote a.quote_not_mem, hname]

/-- The attributes that were written in a tag are found again. -/
theorem attributesAt_renderAll (offset : Nat) (attributes : List QuotedAttribute) :
    attributesAt offset (QuotedAttribute.renderAll attributes) =
      QuotedAttribute.layoutAll offset attributes := by
  induction attributes generalizing offset with
  | nil =>
      simp [QuotedAttribute.renderAll, QuotedAttribute.layoutAll]
  | cons a attributes ih =>
      obtain ⟨c, s, hname, hc, hs⟩ := a.exists_name_eq_cons
      have hrender : a.render ++ QuotedAttribute.renderAll attributes =
          c :: (s ++ '=' :: a.quote ::
            (a.value ++ a.quote :: QuotedAttribute.renderAll attributes)) := by
        simp [QuotedAttribute.render, hname]
      have hraw : (AttributeText.mk a.name
          (some ⟨[], [], .quoted a.quote a.value⟩)).raw = a.render := by
        simp [AttributeText.raw, Assignment.raw, ValueText.raw, QuotedAttribute.render]
      have hread := AttributeText.read_render a (QuotedAttribute.renderAll attributes) hname hs
      rw [QuotedAttribute.renderAll, attributesAt_cons_of_gap offset (by decide), hrender,
        attributesAt_cons_of_read _ hc hread, hraw, ih]
      rfl

end Attributes

section Tags

namespace QuotedAttribute

/-- What is written between the name of a start tag and its end is a tag body. -/
theorem tagBody_renderAll (attributes : List QuotedAttribute) :
    TagBody (renderAll attributes) := by
  induction attributes with
  | nil =>
      exact TagBody.nil
  | cons a attributes ih =>
      have hplain : ∀ c ∈ a.name ++ ['='], IsPlain c := by
        intro c hc
        rcases List.mem_append.mp hc with hc | hc
        · obtain ⟨_, hmark⟩ := a.name_valid c hc
          simp_all [IsPlain, isQuote]
        · rw [List.mem_singleton.mp hc]
          decide
      have hquoted := TagBody.quoted a.isQuote_quote a.quote_not_mem ih
      have hbody := (TagBody.of_plain hplain).append hquoted
      refine TagBody.plain (by decide) ?_
      simpa [render] using hbody

theorem isQuote_of_getLast?_renderAll (attributes : List QuotedAttribute) :
    ∀ c ∈ (renderAll attributes).getLast?, isQuote c = true := by
  induction attributes with
  | nil =>
      simp [renderAll]
  | cons a attributes ih =>
      have hrender : renderAll (a :: attributes) =
          ' ' :: (a.name ++ '=' :: a.quote :: a.value) ++ ([a.quote] ++ renderAll attributes) := by
        simp [renderAll, render]
      rw [hrender, List.getLast?_append, List.getLast?_append]
      cases hlast : (renderAll attributes).getLast? with
      | none =>
          simpa using a.isQuote_quote
      | some c =>
          simpa using ih c hlast

theorem isTagNameChar_head?_renderAll
    (attributes : List QuotedAttribute)
    {close : List Char}
    (hclose : ∀ c ∈ close.head?, isTagNameChar c = false) :
    ∀ c ∈ (renderAll attributes ++ close).head?, isTagNameChar c = false := by
  cases attributes with
  | nil =>
      simpa [renderAll] using hclose
  | cons a attributes =>
      have hspace : isTagNameChar ' ' = false := by decide
      simpa [renderAll] using hspace

end QuotedAttribute

namespace StartTag

/-- A start tag is read up to its end, whatever follows. -/
theorem read?_append
    {name body : List Char}
    (rest : List Char)
    (hne : name ≠ [])
    (hname : ∀ c ∈ name, isTagNameChar c = true)
    (hhead : ∀ c ∈ (body ++ ['>']).head?, isTagNameChar c = false)
    (hbody : TagBody body) :
    read? ('<' :: (name ++ (body ++ '>' :: rest))) = some (ofBody name body, rest) := by
  have hboundary : ∀ c ∈ (body ++ '>' :: rest).head?, isTagNameChar c = false := by
    cases body <;> simpa using hhead
  obtain ⟨htake, hdrop⟩ := takeWhile_dropWhile_of_boundary hname hboundary
  simp [read?, htake, hdrop, hne, splitTagEnd?_of_tagBody rest hbody]

theorem ofBody_of_getLast?
    {name body : List Char}
    (h : ∀ c ∈ body.getLast?, isQuote c = true) :
    ofBody name body = ⟨name, body, false⟩ := by
  have hslash : body.getLast? ≠ some '/' := by
    intro hlast
    have hquote := h '/' hlast
    simp [isQuote] at hquote
  simp [ofBody, hslash]

theorem ofBody_slash (name body : List Char) :
    ofBody name (body ++ ['/']) = ⟨name, body, true⟩ := by
  simp [ofBody]

end StartTag

end Tags

section Pieces

theorem isEndNameChar_of_isTagNameChar
    {c : Char}
    (h : isTagNameChar c = true) :
    isEndNameChar c = true := by
  simp only [isTagNameChar, Bool.and_eq_true, Bool.not_eq_true', bne_iff_ne] at h
  simp only [isEndNameChar, Bool.and_eq_true, Bool.not_eq_true', bne_iff_ne]
  tauto

/-- Neither an enclosure nor an end tag begins with `<` and a character of a name. -/
theorem Piece.next_startTag
    {name body rest : List Char} {tag : StartTag}
    (hne : name ≠ [])
    (hname : ∀ c ∈ name, isTagNameChar c = true)
    (hread : StartTag.read? ('<' :: (name ++ body)) = some (tag, rest)) :
    Piece.next '<' (name ++ body) = .ok (.startTag tag, rest) := by
  obtain ⟨c, name, rfl⟩ := List.exists_cons_of_ne_nil hne
  have hc := hname c (by simp)
  simp only [isTagNameChar, Bool.and_eq_true, bne_iff_ne] at hc
  have hopened : Enclosure.opened? ('<' :: (c :: name ++ body)) = none := by
    rw [Enclosure.opened?, List.find?_eq_none]
    intro kind _
    cases kind <;> simp [Enclosure.opening, List.isPrefixOf] <;> tauto
  have hslash : c ≠ '/' := by tauto
  have htag := ofTag?_of_ne_slash (t := name ++ body) hslash
  simp only [List.cons_append] at hopened hread htag ⊢
  simp [next, hopened, htag, hread]

theorem Piece.next_openTag
    (name : ElementName) (attributes : List QuotedAttribute) (rest : List Char) :
    next '<' (name.chars ++ (QuotedAttribute.renderAll attributes ++ '>' :: rest)) =
      .ok (.startTag ⟨name.chars, QuotedAttribute.renderAll attributes, false⟩, rest) := by
  apply next_startTag name.ne_nil (fun c hc => name.isTagNameChar_of_mem hc)
  rw [StartTag.read?_append rest name.ne_nil (fun c hc => name.isTagNameChar_of_mem hc)
      (QuotedAttribute.isTagNameChar_head?_renderAll attributes (by simp [isTagNameChar]))
      (QuotedAttribute.tagBody_renderAll attributes),
    StartTag.ofBody_of_getLast? (QuotedAttribute.isQuote_of_getLast?_renderAll attributes)]

theorem Piece.next_emptyTag
    (name : ElementName) (attributes : List QuotedAttribute) (rest : List Char) :
    next '<' (name.chars ++ (QuotedAttribute.renderAll attributes ++ ['/'] ++ '>' :: rest)) =
      .ok (.startTag ⟨name.chars, QuotedAttribute.renderAll attributes, true⟩, rest) := by
  have hbody : TagBody (QuotedAttribute.renderAll attributes ++ ['/']) :=
    (QuotedAttribute.tagBody_renderAll attributes).append (TagBody.plain (by decide) TagBody.nil)
  apply next_startTag name.ne_nil (fun c hc => name.isTagNameChar_of_mem hc)
  rw [StartTag.read?_append rest name.ne_nil (fun c hc => name.isTagNameChar_of_mem hc) ?_ hbody,
    StartTag.ofBody_slash]
  rw [List.append_assoc]
  exact QuotedAttribute.isTagNameChar_head?_renderAll attributes (by simp [isTagNameChar])

theorem Piece.next_closeTag (name : ElementName) (rest : List Char) :
    next '<' ('/' :: (name.chars ++ '>' :: rest)) = .ok (.endTag ⟨name.chars, []⟩, rest) := by
  have hread := EndTag.read?_append [] rest name.ne_nil
    (fun c hc => isEndNameChar_of_isTagNameChar (name.isTagNameChar_of_mem hc)) (by simp)
  rw [List.nil_append] at hread
  have hopened : Enclosure.opened? ('<' :: '/' :: (name.chars ++ '>' :: rest)) = none := by
    simp [Enclosure.opened?, Enclosure.opening, List.isPrefixOf]
  simp [next, hopened, ofTag?, hread]

/-- The closing characters of a CDATA section cannot begin inside its content. -/
theorem splitAt?_cdata (content : CDataContent) (rest : List Char) :
    splitAt? [']', ']', '>'] (content.chars ++ ([']', ']', '>'] ++ rest)) =
      some (content.chars, rest) := by
  apply splitAt?_append_of_first (by simp)
  intro w hw hne hprefix
  -- An occurrence that begins in the last two characters would have `]` in the place of `>`.
  match w with
  | [] =>
      exact hne rfl
  | [_] =>
      simp at hprefix
  | [_, _] =>
      simp at hprefix
  | c :: d :: e :: w =>
      simp only [List.cons_append, List.cons_prefix_cons, List.nil_prefix, and_true] at hprefix
      obtain ⟨rfl, rfl, rfl⟩ := hprefix
      have hoccurs : [']', ']', '>'] <:+: ']' :: ']' :: '>' :: w := ⟨[], w, rfl⟩
      exact content.not_infix (hoccurs.trans hw.isInfix)

theorem Piece.next_cdata (content : CDataContent) (rest : List Char) :
    next '<' (['!', '[', 'C', 'D', 'A', 'T', 'A', '['] ++
        (content.chars ++ ([']', ']', '>'] ++ rest))) =
      .ok (.cdata content.chars, rest) := by
  have hopened : Enclosure.opened? ('<' :: (['!', '[', 'C', 'D', 'A', 'T', 'A', '['] ++
      (content.chars ++ ([']', ']', '>'] ++ rest)))) = some .cdata := by
    simp [Enclosure.opened?, Enclosure.opening, List.isPrefixOf]
  have hread : ofEnclosure? .cdata ('<' :: (['!', '[', 'C', 'D', 'A', 'T', 'A', '['] ++
      (content.chars ++ ([']', ']', '>'] ++ rest)))) = some (.cdata content.chars, rest) := by
    have hsplit := splitAt?_cdata content rest
    simp only [ofEnclosure?, Enclosure.terminator, Enclosure.opening, List.length_cons,
      List.length_nil, List.cons_append, List.nil_append, List.drop_succ_cons,
      List.drop_zero] at hsplit ⊢
    rw [hsplit]
    rfl
  simp only [next, if_true, hopened, hread]

theorem Piece.next_text
    (run : PlainText) {rest : List Char}
    (hrest : ∀ c ∈ rest.head?, c = '<')
    {c : Char} {s : List Char}
    (h : run.chars = c :: s) :
    next c (s ++ rest) = .ok (.text run.chars, rest) := by
  have hchars := run.no_bracket
  rw [h] at hchars ⊢
  have hs : ∀ d ∈ s, (d != '<') = true := by
    intro d hd
    simpa using hchars d (by simp [hd])
  have hboundary : ∀ d ∈ rest.head?, (d != '<') = false := by
    intro d hd
    simp [hrest d hd]
  obtain ⟨htake, hdrop⟩ := takeWhile_dropWhile_of_boundary hs hboundary
  simp [next, hchars c (by simp), ofText, htake, hdrop]

end Pieces

namespace Spine

/-- A run of text that starts at `pos` would be a text of its own. -/
def ClearAt (pos : Nat) (s : Spine) : Prop :=
  ∀ run, s.modifyNewest (appendRun pos run) = s.add (.text pos (pos + run.length) run)

theorem clearAt_add
    {pos : Nat} {n : Node} {s : Spine}
    (h : n.isText = true → n.stop ≠ pos) :
    (s.add n).ClearAt pos := by
  intro run
  have happend : ∀ nodes, appendRun pos run (n :: nodes) =
      .text pos (pos + run.length) run :: n :: nodes := by
    intro nodes
    rcases appendRun_cases pos run (n :: nodes) with ⟨first, value, rest, heq, _⟩ | ⟨_, heq⟩
    · simp only [List.cons.injEq] at heq
      rw [heq.1] at h
      exact absurd rfl (h rfl)
    · exact heq
  obtain ⟨opened, newest⟩ := s
  cases opened <;> simp [add, modifyNewest, happend]

theorem modifyNewest_modifyNewest
    (f g : List Node → List Node) (s : Spine) :
    (s.modifyNewest f).modifyNewest g = s.modifyNewest (fun nodes => g (f nodes)) := by
  obtain ⟨opened, newest⟩ := s
  cases opened <;> rfl

/-- An end tag closes the innermost element if it has its name. -/
theorem step_endTag_innermost
    (pos : Nat) (e : OpenElement) (outer : List OpenElement) (newest : List Node) :
    step pos (.endTag ⟨e.name, []⟩) ⟨e :: outer, newest⟩ =
      add (e.close (some pos) (pos + (Piece.endTag ⟨e.name, []⟩).raw.length))
        ⟨outer, newest⟩ := by
  have hdepth : depthOf? e.name (e :: outer) = some 0 := by
    simp [depthOf?, List.findIdx?_cons]
  simp only [step, hdepth, abandon, closeInnermost]

end Spine

namespace Scan

/-- Some pieces lead from one state to the other. -/
def Reads (a b : Scan) : Prop :=
  ∃ ps, Run a ps b

theorem Reads.trans
    {a b c : Scan}
    (hab : Reads a b)
    (hbc : Reads b c) :
    Reads a c := by
  obtain ⟨ps, hps⟩ := hab
  obtain ⟨qs, hqs⟩ := hbc
  exact ⟨ps ++ qs, run_append_iff.mpr ⟨b, hps, hqs⟩⟩

theorem reads_of_next
    {c : Char} {s rest : List Char} {p : Piece}
    (hnext : Piece.next c s = .ok (p, rest))
    (pos : Nat) (spine : Spine) :
    Reads ⟨pos, c :: s, spine⟩ ⟨pos + p.raw.length, rest, spine.step pos p⟩ :=
  ⟨[p], Run.head (Step.read hnext) (Run.refl _)⟩

/-- What an outline is written as, at `pos` and before `rest`, is read as its layout. -/
def ReadsOutline (o : Outline) (pos : Nat) (rest : List Char) (spine : Spine) : Prop :=
  Reads ⟨pos, o.render ++ rest, spine⟩
    ⟨pos + o.render.length, rest, spine.add (o.layout pos)⟩

/-- The same for a forest. -/
def ReadsForest (forest : List Outline) (pos : Nat) (rest : List Char) (spine : Spine) : Prop :=
  Reads ⟨pos, Outline.renderAll forest ++ rest, spine⟩
    ⟨pos + (Outline.renderAll forest).length, rest,
      spine.modifyNewest ((Outline.layoutAll pos forest).reverse ++ ·)⟩

theorem readsOutline_selfClosing
    (name : ElementName) (attributes : List QuotedAttribute)
    (pos : Nat) (rest : List Char) (spine : Spine) :
    ReadsOutline (.selfClosing name attributes) pos rest spine := by
  have hread := reads_of_next (Piece.next_emptyTag name attributes rest) pos spine
  simpa [ReadsOutline, Outline.render, Outline.emptyTag, Outline.layout, Piece.raw,
    StartTag.raw, Spine.step, attributesAt_renderAll] using hread

theorem readsOutline_text
    (run : PlainText)
    {pos : Nat} {rest : List Char} {spine : Spine}
    (hrest : ∀ c ∈ rest.head?, c = '<')
    (hclear : spine.ClearAt pos) :
    ReadsOutline (.text run) pos rest spine := by
  obtain ⟨c, s, hrun⟩ := List.exists_cons_of_ne_nil run.ne_nil
  have hread := reads_of_next (Piece.next_text run hrest hrun) pos spine
  rw [← List.cons_append, ← hrun] at hread
  simpa [ReadsOutline, Outline.render, Outline.layout, Piece.raw, Spine.step,
    hclear run.chars] using hread

theorem readsOutline_cdata
    (content : CDataContent)
    (pos : Nat) (rest : List Char) (spine : Spine) :
    ReadsOutline (.cdata content) pos rest spine := by
  have hread := reads_of_next (Piece.next_cdata content rest) pos spine
  simpa [ReadsOutline, Outline.render, Outline.layout, Piece.raw, Enclosure.opening,
    Enclosure.terminator, Spine.step] using hread

/-- The element that a start tag written at `pos` opens. -/
def openedAt (pos : Nat) (name : ElementName) (attributes : List QuotedAttribute) : OpenElement :=
  ⟨name.chars, QuotedAttribute.layoutAll (pos + 1 + name.chars.length) attributes, pos,
    pos + (Outline.openTag name attributes).length, []⟩

theorem reads_openTag
    (name : ElementName) (attributes : List QuotedAttribute)
    (pos : Nat) (rest : List Char) (spine : Spine) :
    Reads ⟨pos, Outline.openTag name attributes ++ rest, spine⟩
      ⟨pos + (Outline.openTag name attributes).length, rest,
        ⟨openedAt pos name attributes :: spine.opened, spine.newest⟩⟩ := by
  have hread := reads_of_next (Piece.next_openTag name attributes rest) pos spine
  simpa [openedAt, Outline.openTag, Piece.raw, StartTag.raw, Spine.step,
    attributesAt_renderAll] using hread

theorem reads_closeTag
    (name : ElementName) {e : OpenElement}
    (hname : e.name = name.chars)
    (pos : Nat) (rest : List Char) (outer : List OpenElement) (newest : List Node) :
    Reads ⟨pos, Outline.closeTag name ++ rest, ⟨e :: outer, newest⟩⟩
      ⟨pos + (Outline.closeTag name).length, rest,
        Spine.add (e.close (some pos) (pos + (Outline.closeTag name).length))
          ⟨outer, newest⟩⟩ := by
  have hread := reads_of_next (Piece.next_closeTag name rest) pos ⟨e :: outer, newest⟩
  rw [← hname, Spine.step_endTag_innermost] at hread
  simpa [Outline.closeTag, Piece.raw, EndTag.raw, ← hname] using hread

/-- An element is read if its children are, inside it and before its end tag. -/
theorem readsOutline_element
    {name : ElementName} {attributes : List QuotedAttribute} {children : List Outline}
    {pos : Nat} {rest : List Char} {spine : Spine}
    (hchildren :
      ReadsForest children (pos + (Outline.openTag name attributes).length)
        (Outline.closeTag name ++ rest)
        ⟨openedAt pos name attributes :: spine.opened, spine.newest⟩) :
    ReadsOutline (.element name attributes children) pos rest spine := by
  have hopen := reads_openTag name attributes pos
    (Outline.renderAll children ++ (Outline.closeTag name ++ rest)) spine
  have hclose := reads_closeTag name (e := { openedAt pos name attributes with
    newest := (Outline.layoutAll (pos + (Outline.openTag name attributes).length)
      children).reverse }) rfl
    (pos + (Outline.openTag name attributes).length + (Outline.renderAll children).length)
    rest spine.opened spine.newest
  simp only [ReadsForest, Spine.modifyNewest, openedAt, List.append_nil] at hchildren hclose hopen
  have hall := (hopen.trans hchildren).trans hclose
  simpa [ReadsOutline, Outline.render, Outline.layout, OpenElement.close, Nat.add_assoc]
    using hall

theorem ReadsForest.cons
    {o : Outline} {forest : List Outline}
    {pos : Nat} {rest : List Char} {spine : Spine}
    (hhead : ReadsOutline o pos (Outline.renderAll forest ++ rest) spine)
    (htail : ReadsForest forest (pos + o.render.length) rest (spine.add (o.layout pos))) :
    ReadsForest (o :: forest) pos rest spine := by
  have hall := Reads.trans hhead htail
  simpa [ReadsForest, Outline.renderAll, Outline.layoutAll, Spine.add,
    Spine.modifyNewest_modifyNewest, Nat.add_assoc] using hall

/-- Unless a plain text comes first, what a forest is written as starts with `<`. -/
theorem head?_renderAll_append
    {forest : List Outline} {rest : List Char}
    (hforest : Outline.beginsWithText forest = false)
    (hrest : ∀ c ∈ rest.head?, c = '<') :
    ∀ c ∈ (Outline.renderAll forest ++ rest).head?, c = '<' := by
  cases forest with
  | nil =>
      simpa [Outline.renderAll] using hrest
  | cons o forest =>
      cases o with
      | element name attributes children =>
          simp [Outline.renderAll, Outline.render, Outline.openTag]
      | selfClosing name attributes =>
          simp [Outline.renderAll, Outline.render, Outline.emptyTag]
      | text run =>
          simp [Outline.beginsWithText, Outline.isText] at hforest
      | cdata content =>
          simp [Outline.renderAll, Outline.render]

/-- A forest is read as its layout, wherever it stands and whatever markup follows. -/
theorem readsForest_of_separated
    (forest : List Outline) (pos : Nat) (rest : List Char) (spine : Spine)
    (hseparated : Outline.separatedAll forest = true)
    (hrest : ∀ c ∈ rest.head?, c = '<')
    (hclear : Outline.beginsWithText forest = true → spine.ClearAt pos) :
    ReadsForest forest pos rest spine := by
  induction forest using Outline.forest_induction generalizing pos rest spine with
  | nil =>
      obtain ⟨opened, newest⟩ := spine
      refine ⟨[], ?_⟩
      cases opened <;> exact Run.refl _
  | element name attributes children forest ihChildren ihForest =>
      simp only [Outline.separatedAll, Outline.separated, Bool.and_eq_true] at hseparated
      obtain ⟨⟨hchildren, _⟩, hforest⟩ := hseparated
      refine ReadsForest.cons (readsOutline_element ?_) ?_
      · apply ihChildren _ _ _ hchildren
        · simp [Outline.closeTag]
        · intro _ run
          rfl
      · apply ihForest _ _ _ hforest hrest
        intro _
        exact Spine.clearAt_add (by simp [Outline.layout, Node.isText])
  | selfClosing name attributes forest ihForest =>
      simp only [Outline.separatedAll, Bool.and_eq_true] at hseparated
      obtain ⟨_, hforest⟩ := hseparated
      refine ReadsForest.cons (readsOutline_selfClosing ..) ?_
      apply ihForest _ _ _ hforest hrest
      intro _
      exact Spine.clearAt_add (by simp [Outline.layout, Node.isText])
  | text run forest ihForest =>
      simp only [Outline.separatedAll, Outline.isText, Bool.and_eq_true, Bool.true_and,
        Bool.not_eq_true'] at hseparated
      obtain ⟨⟨_, hnext⟩, hforest⟩ := hseparated
      refine ReadsForest.cons (readsOutline_text run ?_ (hclear rfl)) ?_
      · exact head?_renderAll_append hnext hrest
      · apply ihForest _ _ _ hforest hrest
        intro hbegins
        rw [hnext] at hbegins
        cases hbegins
  | cdata content forest ihForest =>
      simp only [Outline.separatedAll, Bool.and_eq_true] at hseparated
      obtain ⟨_, hforest⟩ := hseparated
      refine ReadsForest.cons (readsOutline_cdata ..) ?_
      apply ihForest _ _ _ hforest hrest
      intro _
      -- The closing characters of the section stand between its text and what follows.
      apply Spine.clearAt_add
      intro _
      simp only [Outline.layout, Outline.render, Node.stop, List.length_append,
        List.length_cons, List.length_nil]
      omega

end Scan

/--
**Parsing undoes writing.**  A manifest that is written down is parsed into the same manifest,
with every node and every attribute at the place at which it was written.
-/
theorem parse_render (m : Manifest) :
    parse m.render = .ok m.tree := by
  have hreads := Scan.readsForest_of_separated m.forest 0 [] Spine.empty m.separated
    (by simp) (fun _ _ => rfl)
  obtain ⟨ps, hrun⟩ := hreads
  rw [List.append_nil] at hrun
  refine parse_eq_ok_iff.mpr ⟨ps, _, hrun, rfl, ?_⟩
  simp [Spine.finish, Spine.abandon, Spine.modifyNewest, Spine.empty, Manifest.tree]

/--
Brackets and slashes in values, a name inside itself and up to case, and a section that ends in
`]` come back as they were written.
-/
theorem parse_render_awkward :
    ∃ m : Manifest,
      m.render = "<a x='>/<' y=\"'\"><A><a/></A><![CDATA[x]]]>t</a>".toList ∧
      m.tree = .document 47
        [.element ⟨['a'], [⟨['x'], ['>', '/', '<'], 3, 10⟩, ⟨['y'], ['\''], 11, 16⟩],
            0, 17, some 43, 47, false⟩
          [.element ⟨['A'], [], 17, 20, some 24, 28, false⟩
            [.element ⟨['a'], [], 20, 24, none, 24, true⟩ []],
            .text 37 39 ['x', ']'],
            .text 42 43 ['t']]] ∧
      parse m.render = .ok m.tree := by
  refine ⟨⟨[
    .element ⟨['a'], by simp, by simp [isBlank]⟩
      [⟨['x'], '\'', ['>', '/', '<'], by simp, by simp [isBlank], by simp, by simp⟩,
        ⟨['y'], '"', ['\''], by simp, by simp [isBlank], by simp, by simp⟩]
      [.element ⟨['A'], by simp, by simp [isBlank]⟩ []
          [.selfClosing ⟨['a'], by simp, by simp [isBlank]⟩ []],
        .cdata ⟨['x', ']'], by decide⟩,
        .text ⟨['t'], by simp, by simp⟩]], rfl⟩, ?_, ?_, ?_⟩
  · with_unfolding_all rfl
  · with_unfolding_all rfl
  · exact parse_render _

end Markup
end NuspecLint
