import NuspecLint.Proofs.Markup.Comment
import NuspecLint.Proofs.Markup.RoundTrip

/-!
# Places of attributes

Where the attributes of an element stand in its start tag, however the tag is written.

**View.**  The attributes of a tag are read from the characters between its name and its closing
characters.  A name runs as far as it can; an assignment belongs to the name before it if it can be
read there, and a value without quotes runs as far as it can.  Everything else separates names.

**Results.**
* `Assignment.assigns_of_read?` and `Assignment.exists_read?_of_assigns`: an assignment is read
  exactly where one stands.
* `attributesAt_written`, `attributesAt_ordered` and `attributesAt_separated`: what is read from the
  attribute part of a tag stands there, from left to right, and nothing is left out.
* `Scan.Run.tagged`: every element of a tree under construction comes from a start tag of the text.
* `parse_attributes_placed`: the attributes of every element of a parsed text.
-/

namespace NuspecLint
namespace Markup

open Text Node

/-- A character that stands in no name of an attribute. -/
def SeparatesNames (c : Char) : Prop :=
  isBlank c = true ∨ c ∈ ['=', '/', '"', '\'']

/-- A character that stands in no value without quotes. -/
def EndsValue (c : Char) : Prop :=
  isBlank c = true ∨ c ∈ ['"', '\'']

/--
The characters `raw`, with `rest` behind them, assign `value`: an equals sign, white space around
it, and the value between quotes or, as far as it goes, without them.
-/
inductive Assigns : List Char → List Char → List Char → Prop
  | quoted
      {before after value rest : List Char} {quote : Char}
      (hbefore : ∀ c ∈ before, isBlank c = true)
      (hafter : ∀ c ∈ after, isBlank c = true)
      (hquote : quote ∈ ['"', '\''])
      (hvalue : quote ∉ value) :
      Assigns (before ++ '=' :: (after ++ quote :: (value ++ [quote]))) value rest
  | bare
      {before after value rest : List Char}
      (hbefore : ∀ c ∈ before, isBlank c = true)
      (hafter : ∀ c ∈ after, isBlank c = true)
      (hne : value ≠ [])
      (hvalue : ∀ c ∈ value, ¬ EndsValue c)
      (hend : ∀ c ∈ rest.head?, EndsValue c) :
      Assigns (before ++ '=' :: (after ++ value)) value rest

section Characters

variable {c : Char}

theorem isQuote_iff :
    isQuote c = true ↔ c ∈ ['"', '\''] := by
  simp [isQuote]

theorem isAttributeNameChar_eq_false_iff :
    isAttributeNameChar c = false ↔ SeparatesNames c := by
  cases hblank : isBlank c with
  | true =>
      simp [isAttributeNameChar, SeparatesNames, hblank]
  | false =>
      simp [isAttributeNameChar, SeparatesNames, hblank, isQuote]
      tauto

theorem isAttributeNameChar_eq_true_iff :
    isAttributeNameChar c = true ↔ ¬ SeparatesNames c := by
  rw [← isAttributeNameChar_eq_false_iff, Bool.not_eq_false]

theorem isBareChar_eq_false_iff :
    isBareChar c = false ↔ EndsValue c := by
  cases hblank : isBlank c with
  | true =>
      simp [isBareChar, EndsValue, hblank]
  | false =>
      simp [isBareChar, EndsValue, hblank, isQuote]
      tauto

theorem isBareChar_eq_true_iff :
    isBareChar c = true ↔ ¬ EndsValue c := by
  rw [← isBareChar_eq_false_iff, Bool.not_eq_false]

end Characters

section Assignments

/-- A quoted string ends at the first quote. -/
theorem quote_not_mem_of_splitAt?
    {quote : Char} {s before after : List Char}
    (h : splitAt? [quote] s = some (before, after)) :
    quote ∉ before := by
  intro hmem
  obtain ⟨u, v, rfl⟩ := List.append_of_mem hmem
  have hs := eq_append_of_splitAt? h
  have hle := splitAt?_append_minimal h (u := u) (v := v ++ [quote] ++ after) (by simp [hs])
  rw [List.length_append, List.length_cons] at hle
  omega

theorem head?_dropWhile_eq_false
    {p : Char → Bool} {s : List Char} {c : Char}
    (hc : c ∈ (s.dropWhile p).head?) :
    p c = false := by
  have hnot := List.head?_dropWhile_not p s
  rw [Option.mem_def.mp hc] at hnot
  simpa using hnot

/-- What is read as an assignment is one. -/
theorem Assignment.assigns_of_read?
    {s rest : List Char} {a : Assignment}
    (h : read? s = some (a, rest)) :
    Assigns a.raw a.value.value rest := by
  unfold read? at h
  split at h
  · cases h
  · next d t hdrop =>
      split at h
      · obtain ⟨⟨v, after⟩, hfound, heq⟩ := Option.map_eq_some_iff.mp h
        simp only [Prod.mk.injEq] at heq
        obtain ⟨rfl, rfl⟩ := heq
        have hbefore : ∀ c ∈ s.takeWhile isBlank, isBlank c = true :=
          fun c hc => List.mem_takeWhile_imp hc
        have hafter : ∀ c ∈ t.takeWhile isBlank, isBlank c = true :=
          fun c hc => List.mem_takeWhile_imp hc
        cases hvalue : t.dropWhile isBlank with
        | nil =>
            rw [hvalue] at hfound
            cases hfound
        | cons e u =>
            rw [hvalue] at hfound
            simp only [ValueText.read?] at hfound
            split at hfound
            · next hquote =>
                obtain ⟨cut, hcut, heq⟩ := Option.map_eq_some_iff.mp hfound
                cases heq
                exact Assigns.quoted hbefore hafter (isQuote_iff.mp hquote)
                  (quote_not_mem_of_splitAt? hcut)
            · split at hfound
              · next hbare =>
                  cases hfound
                  refine Assigns.bare hbefore hafter (List.cons_ne_nil _ _) ?_ ?_
                  · intro c hc
                    rcases List.mem_cons.mp hc with rfl | hc
                    · exact isBareChar_eq_true_iff.mp hbare
                    · exact isBareChar_eq_true_iff.mp (List.mem_takeWhile_imp hc)
                  · intro c hc
                    exact isBareChar_eq_false_iff.mp (head?_dropWhile_eq_false hc)
              · cases hfound
      · cases h

theorem ValueText.exists_read?_quoted
    {quote : Char} {value : List Char}
    (rest : List Char)
    (hquote : quote ∈ ['"', '\''])
    (hvalue : quote ∉ value) :
    ∃ found, read? (quote :: (value ++ quote :: rest)) = some found := by
  refine ⟨(.quoted quote value, rest), ?_⟩
  simp [read?, isQuote_iff.mpr hquote, splitAt?_quote rest hvalue]

theorem ValueText.exists_read?_bare
    {c : Char} (s : List Char)
    (hc : isBareChar c = true) :
    ∃ found, read? (c :: s) = some found := by
  have hquote : isQuote c = false := by
    simp only [isBareChar, Bool.and_eq_true, Bool.not_eq_true'] at hc
    exact hc.2
  exact ⟨_, by simp only [read?, hquote, hc, Bool.false_eq_true, if_false, if_true]; rfl⟩

/-- Behind white space and an equals sign the value decides whether an assignment is read. -/
theorem Assignment.exists_read?_of_value
    {before after s : List Char} {c : Char}
    (hbefore : ∀ c ∈ before, isBlank c = true)
    (hafter : ∀ c ∈ after, isBlank c = true)
    (hc : isBlank c = false)
    (hvalue : ∃ found, ValueText.read? (c :: s) = some found) :
    ∃ found, read? (before ++ '=' :: (after ++ c :: s)) = some found := by
  have hequals : (before ++ '=' :: (after ++ c :: s)).dropWhile isBlank =
      '=' :: (after ++ c :: s) :=
    (takeWhile_dropWhile_of_boundary hbefore (by simp; decide)).2
  have hgap : (after ++ c :: s).dropWhile isBlank = c :: s :=
    (takeWhile_dropWhile_of_boundary hafter (by simpa using hc)).2
  obtain ⟨found, hfound⟩ := hvalue
  refine ⟨(⟨(before ++ '=' :: (after ++ c :: s)).takeWhile isBlank,
    (after ++ c :: s).takeWhile isBlank, found.1⟩, found.2), ?_⟩
  simp only [read?, hequals, hgap, hfound, if_true, Option.map_some]

/-- Where an assignment stands, one is read. -/
theorem Assignment.exists_read?_of_assigns
    {raw value rest : List Char}
    (h : Assigns raw value rest) :
    ∃ found, read? (raw ++ rest) = some found := by
  cases h with
  | @quoted before after value rest quote hbefore hafter hquote hvalue =>
      have hblank : isBlank quote = false := by
        simp only [List.mem_cons, List.not_mem_nil, or_false] at hquote
        rcases hquote with rfl | rfl <;> decide
      simpa using exists_read?_of_value hbefore hafter hblank
        (ValueText.exists_read?_quoted rest hquote hvalue)
  | @bare before after value rest hbefore hafter hne hvalue hend =>
      obtain ⟨c, value, rfl⟩ := List.exists_cons_of_ne_nil hne
      have hc := hvalue c (by simp)
      have hblank : isBlank c = false := by
        simpa using fun h => hc (Or.inl h)
      simpa using exists_read?_of_value hbefore hafter hblank
        (ValueText.exists_read?_bare (value ++ rest) (isBareChar_eq_true_iff.mpr hc))

end Assignments

section Reading

/-- Where the name of an attribute ends. -/
def Attribute.nameEnd (a : Attribute) : Nat :=
  a.start + a.name.length

/--
The attribute stands in the part of `source` that ends at `hi` as it should: first its name, which
cannot be made longer, then nothing, if nothing can be read there, or an assignment of its value.
-/
structure Attribute.Written (source : List Char) (hi : Nat) (a : Attribute) : Prop where
  name_ne_nil : a.name ≠ []
  name_chars : ∀ c ∈ a.name, ¬ SeparatesNames c
  name_stands : source.extract a.start a.nameEnd = a.name
  name_ends : ∀ c ∈ (source.extract a.nameEnd hi).head?, SeparatesNames c
  nameEnd_le : a.nameEnd ≤ a.stop
  value_stands :
    (a.stop = a.nameEnd ∧ a.value = [] ∧
      ∀ raw value rest, source.extract a.nameEnd hi = raw ++ rest → ¬ Assigns raw value rest) ∨
    Assigns (source.extract a.nameEnd a.stop) a.value (source.extract a.stop hi)

/-- What is read as an attribute: a name as long as it can be, and an assignment if there is one. -/
theorem AttributeText.read_cases
    {c : Char} (s : List Char)
    (hc : isAttributeNameChar c = true) :
    ∃ name left,
      c :: s = name ++ left ∧ name ≠ [] ∧
      (∀ d ∈ name, ¬ SeparatesNames d) ∧ (∀ d ∈ left.head?, SeparatesNames d) ∧
      ((read c s = (⟨name, none⟩, left) ∧
          ∀ raw value rest, left = raw ++ rest → ¬ Assigns raw value rest) ∨
        ∃ a rest, read c s = (⟨name, some a⟩, rest) ∧ left = a.raw ++ rest ∧
          Assigns a.raw a.value.value rest) := by
  refine ⟨c :: s.takeWhile isAttributeNameChar, s.dropWhile isAttributeNameChar, by simp, by simp,
    ?_, fun d hd => isAttributeNameChar_eq_false_iff.mp (head?_dropWhile_eq_false hd), ?_⟩
  · intro d hd
    rcases List.mem_cons.mp hd with rfl | hd
    · exact isAttributeNameChar_eq_true_iff.mp hc
    · exact isAttributeNameChar_eq_true_iff.mp (List.mem_takeWhile_imp hd)
  · cases hread : Assignment.read? (s.dropWhile isAttributeNameChar) with
    | none =>
        refine Or.inl ⟨by simp only [read, hread], ?_⟩
        intro raw value rest heq hassigns
        obtain ⟨found, hfound⟩ := Assignment.exists_read?_of_assigns hassigns
        rw [← heq, hread] at hfound
        cases hfound
    | some found =>
        exact Or.inr ⟨found.1, found.2, by simp only [read, hread],
          Assignment.eq_append_of_read? hread, Assignment.assigns_of_read? hread⟩

variable {source : List Char}

/-- An attribute is written as it is read. -/
theorem Attribute.written_of_read
    {offset : Nat} {c : Char} {s after : List Char}
    (hdrop : source.drop offset = (c :: s) ++ after)
    (hc : isAttributeNameChar c = true) :
    Attribute.Written source (offset + (c :: s).length)
      ⟨(AttributeText.read c s).1.name, (AttributeText.read c s).1.value, offset,
        offset + (AttributeText.read c s).1.raw.length⟩ := by
  obtain ⟨name, left, hparts, hne, hchars, hends, hcases⟩ := AttributeText.read_cases s hc
  rw [hparts, List.append_assoc] at hdrop
  have hstands : source.extract offset (offset + name.length) = name :=
    extract_eq_of_drop_eq [] name hdrop
  have hleft : source.extract (offset + name.length) (offset + (c :: s).length) = left := by
    rw [hparts, List.length_append, ← Nat.add_assoc]
    exact extract_eq_of_drop_eq name left hdrop
  have hleftEnds : ∀ d ∈ (source.extract (offset + name.length)
      (offset + (c :: s).length)).head?, SeparatesNames d := by
    rw [hleft]
    exact hends
  rcases hcases with ⟨hread, hnone⟩ | ⟨a, rest, hread, rfl, hassigns⟩
  · have hraw : (AttributeText.mk name none).raw = name := by
      simp [AttributeText.raw]
    rw [hread, hraw]
    refine ⟨hne, hchars, hstands, hleftEnds, Nat.le_refl _, Or.inl ⟨rfl, rfl, ?_⟩⟩
    simp only [Attribute.nameEnd, hleft]
    exact hnone
  · have hraw : (AttributeText.mk name (some a)).raw = name ++ a.raw := by
      simp [AttributeText.raw]
    have hlength : (c :: s).length = (name ++ a.raw).length + rest.length := by
      rw [hparts, ← List.append_assoc, List.length_append]
    have hassign : source.extract (offset + name.length)
        (offset + (name ++ a.raw).length) = a.raw := by
      rw [List.append_assoc] at hdrop
      rw [List.length_append, ← Nat.add_assoc]
      exact extract_eq_of_drop_eq name a.raw hdrop
    have hbehind : source.extract (offset + (name ++ a.raw).length)
        (offset + (c :: s).length) = rest := by
      rw [List.append_assoc, ← List.append_assoc name] at hdrop
      rw [hlength, ← Nat.add_assoc]
      exact extract_eq_of_drop_eq (name ++ a.raw) rest hdrop
    rw [hread, hraw]
    refine ⟨hne, hchars, hstands, hleftEnds, ?_, Or.inr ?_⟩
    · simp only [Attribute.nameEnd, List.length_append]
      omega
    · simp only [Attribute.nameEnd, hassign, hbehind]
      exact hassigns

/-- Every attribute of a part of the text stands there as it should. -/
theorem attributesAt_written
    {offset : Nat} {part after : List Char}
    (hdrop : source.drop offset = part ++ after) :
    ∀ a ∈ attributesAt offset part, a.Written source (offset + part.length) := by
  fun_induction attributesAt offset part with
  | case1 offset =>
      simp
  | case2 offset c s hc found stop ih =>
      have hsplit : c :: s = found.1.raw ++ found.2 := AttributeText.eq_append_of_read c s
      have hlength : offset + (c :: s).length = stop + found.2.length := by
        rw [hsplit, List.length_append, ← Nat.add_assoc]
      have hlater : source.drop stop = found.2 ++ after := by
        rw [hsplit, List.append_assoc] at hdrop
        rw [← List.drop_drop, hdrop, List.drop_left]
      intro a ha
      rcases List.mem_cons.mp ha with rfl | ha
      · exact Attribute.written_of_read hdrop hc
      · rw [hlength]
        exact ih hlater a ha
  | case3 offset c s hc ih =>
      have hlater : source.drop (offset + 1) = s ++ after := by
        rw [← List.drop_drop, hdrop]
        simp
      rw [List.length_cons, ← Nat.add_assoc, Nat.add_right_comm]
      exact ih hlater

/-- The attributes of a part stand from left to right and do not overlap. -/
theorem attributesAt_ordered (offset : Nat) (part : List Char) :
    (attributesAt offset part).Pairwise (fun a b => a.stop ≤ b.start) := by
  fun_induction attributesAt offset part with
  | case1 offset =>
      simp
  | case2 offset c s hc found stop ih =>
      refine List.pairwise_cons.mpr ⟨?_, ih⟩
      intro b hb
      exact (attributesAt_within hb).1
  | case3 offset c s hc ih =>
      exact ih

/-- What no attribute stands on separates names. -/
theorem attributesAt_separated (offset : Nat) (part : List Char) :
    ∀ i d, part[i]? = some d →
      (∀ a ∈ attributesAt offset part, offset + i < a.start ∨ a.stop ≤ offset + i) →
      SeparatesNames d := by
  fun_induction attributesAt offset part with
  | case1 offset =>
      simp
  | case2 offset c s hc found stop ih =>
      intro i d hd hgap
      have hsplit : c :: s = found.1.raw ++ found.2 := AttributeText.eq_append_of_read c s
      have hstop : stop = offset + found.1.raw.length := rfl
      obtain ⟨hfirst, hlater⟩ := List.forall_mem_cons.mp hgap
      simp only at hfirst
      have hle : found.1.raw.length ≤ i := by omega
      rw [hsplit, List.getElem?_append_right hle] at hd
      have hplace : stop + (i - found.1.raw.length) = offset + i := by omega
      apply ih _ d hd
      rw [hplace]
      exact hlater
  | case3 offset c s hc ih =>
      intro i d hd hgap
      cases i with
      | zero =>
          simp only [List.getElem?_cons_zero, Option.some.injEq] at hd
          subst hd
          exact isAttributeNameChar_eq_false_iff.mp (by simpa using hc)
      | succ i =>
          rw [List.getElem?_cons_succ] at hd
          apply ih i d hd
          rw [Nat.add_assoc, Nat.add_comm 1 i]
          exact hgap

end Reading

section Tags

/-- What is known of an element whose start tag stands at `pos`. -/
def StartTag.headingAt (pos : Nat) (tag : StartTag) : Heading :=
  ⟨tag.name, attributesAt (pos + 1 + tag.name.length) tag.attributePart, pos,
    pos + tag.raw.length⟩

/-- The heading comes from a start tag of `source`, which closes itself or not. -/
def Heading.Tagged (source : List Char) (selfClosing : Bool) (k : Heading) : Prop :=
  ∃ (tag : StartTag) (after : List Char),
    source.drop k.start = tag.raw ++ after ∧ tag.selfClosing = selfClosing ∧
    k = tag.headingAt k.start

namespace Spine

variable {s : Spine} {pos : Nat} {p : Piece} {x : Element} {k : Heading}

theorem mem_elements_closeInnermost
    {start stop : Nat}
    (h : x ∈ (s.closeInnermost start stop).elements) :
    x ∈ s.elements ∨ ∃ k ∈ s.headings, x = k.ended (some start) stop := by
  obtain ⟨opened, newest⟩ := s
  cases opened with
  | nil =>
      exact Or.inl h
  | cons e outer =>
      refine ((mem_elements_close e outer newest _ _).mp h).imp_right ?_
      intro heq
      exact ⟨e.heading, by simp [headings], heq⟩

/-- Where the finished elements come from after a piece has been read. -/
theorem mem_elements_step
    (h : x ∈ (s.step pos p).elements) :
    x ∈ s.elements ∨
    (x.heading ∈ s.headings ∧ x.selfClosing = false) ∨
    ∃ tag, p = .startTag tag ∧ tag.selfClosing = true ∧
      x.selfClosing = true ∧ x.heading = tag.headingAt pos := by
  cases p with
  | skipped kind body =>
      exact Or.inl h
  | cdata content =>
      left
      simpa [step, mem_elements_add, element?, children] using h
  | endTag tag =>
      simp only [step] at h
      split at h
      · exact Or.inl h
      · next depth _ =>
          rcases mem_elements_closeInnermost h with h | ⟨k, hk, rfl⟩
          · rcases (mem_elements_abandon pos depth s).mp h with h | ⟨k, hk, rfl⟩
            · exact Or.inl h
            · exact Or.inr (Or.inl ⟨List.mem_of_mem_take hk, rfl⟩)
          · rw [headings_abandon] at hk
            exact Or.inr (Or.inl ⟨List.mem_of_mem_drop hk, rfl⟩)
  | startTag tag =>
      cases hself : tag.selfClosing with
      | true =>
          simp only [step, hself, if_true, mem_elements_add, elementsAll_cons, element?, children,
            elementsAll_nil, List.append_nil, Option.toList_some, List.mem_singleton] at h
          rcases h with h | rfl
          · exact Or.inl h
          · exact Or.inr (Or.inr ⟨tag, rfl, hself, rfl, rfl⟩)
      | false =>
          left
          simpa [step, hself, elements] using h
  | text run =>
      left
      have hiff := mem_elements_modifyNewest (e := x) (P := False) s
        (fun newest => by rw [elementsAll_appendRun pos run newest]; simp)
      simpa using hiff.mp h

/-- Where the open elements come from after a piece has been read. -/
theorem mem_headings_step
    (h : k ∈ (s.step pos p).headings) :
    k ∈ s.headings ∨
    ∃ tag, p = .startTag tag ∧ tag.selfClosing = false ∧ k = tag.headingAt pos := by
  cases p with
  | skipped kind body =>
      exact Or.inl h
  | cdata content =>
      exact Or.inl (by simpa [step] using h)
  | endTag tag =>
      left
      cases effect_of_endTag s pos tag with
      | keeps hheadings _ _ _ =>
          exact hheadings ▸ h
      | opens _ _ _ _ htag =>
          exact absurd rfl (htag tag)
      | closes _ _ _ _ _ hheadings _ houter _ =>
          rw [houter] at h
          rw [hheadings]
          simp [h]
  | startTag tag =>
      cases hself : tag.selfClosing with
      | true =>
          exact Or.inl (by simpa [step, hself] using h)
      | false =>
          simp only [step, hself, Bool.false_eq_true, if_false, headings, List.map_cons,
            List.mem_cons] at h
          rcases h with rfl | h
          · exact Or.inr ⟨tag, rfl, hself, rfl⟩
          · exact Or.inl h
  | text run =>
      exact Or.inl (by simpa [step] using h)

end Spine

namespace Scan

variable {source : List Char} {a b : Scan}

theorem Step.tagged_startTag
    {tag : StartTag}
    (h : Step a (.startTag tag) b)
    (ha : a.Of source) :
    (tag.headingAt a.pos).Tagged source tag.selfClosing := by
  refine ⟨tag, b.rest, ?_, rfl, rfl⟩
  have hrest := h.rest_eq
  rw [← ha.drop_eq] at hrest
  exact hrest

/-- At every place of a scan, all elements come from start tags that the scan has passed. -/
theorem Run.tagged
    {ps : List Piece}
    (h : Run (initial source) ps a) :
    (∀ x ∈ a.spine.elements, x.heading.Tagged source x.selfClosing) ∧
    ∀ k ∈ a.spine.headings, k.Tagged source false := by
  have hinv := h.invariant
    (fun a => a.Of source ∧
      (∀ x ∈ a.spine.elements, x.heading.Tagged source x.selfClosing) ∧
      ∀ k ∈ a.spine.headings, k.Tagged source false)
    (by
      rintro a b p hstep ⟨hof, helements, hheadings⟩
      refine ⟨hstep.of hof, ?_, ?_⟩
      · intro x hx
        rw [hstep.spine_eq] at hx
        rcases Spine.mem_elements_step hx with hx | ⟨hk, hself⟩ | ⟨tag, rfl, htag, hself, hx⟩
        · exact helements x hx
        · rw [hself]
          exact hheadings _ hk
        · rw [hself, hx, ← htag]
          exact hstep.tagged_startTag hof
      · intro k hk
        rw [hstep.spine_eq] at hk
        rcases Spine.mem_headings_step hk with hk | ⟨tag, rfl, htag, rfl⟩
        · exact hheadings k hk
        · rw [← htag]
          exact hstep.tagged_startTag hof)
    ⟨of_initial source, by simp [initial, Spine.empty, Spine.elements],
      by simp [initial, Spine.empty, Spine.headings]⟩
  exact hinv.2

end Scan

theorem tagged_of_parse
    {source : List Char} {tree : Node} {e : Element}
    (h : parse source = .ok tree)
    (he : e ∈ tree.elements) :
    e.heading.Tagged source e.selfClosing := by
  obtain ⟨ps, last, hrun, _, rfl⟩ := parse_eq_ok_iff.mp h
  obtain ⟨helements, hheadings⟩ := hrun.tagged
  rcases (Spine.mem_elements_finish source.length last.spine).mp he with he | ⟨k, hk, rfl⟩
  · exact helements e he
  · exact hheadings k hk

end Tags

namespace Element

/-- The characters that close the start tag of an element. -/
def closing (e : Element) : List Char :=
  if e.selfClosing then ['/', '>'] else ['>']

/-- Where the name of an element ends in its start tag. -/
def attributesStart (e : Element) : Nat :=
  e.start + 1 + e.name.length

/-- Where the characters that close the start tag of an element begin. -/
def attributesStop (e : Element) : Nat :=
  e.startTagEnd - e.closing.length

/--
The attributes of an element stand in its start tag, between the name and the closing characters,
one behind the other, and whatever else stands there separates names.
-/
structure AttributesPlaced (source : List Char) (e : Element) : Prop where
  tag_stands : source.extract e.start e.startTagEnd =
    '<' :: (e.name ++ (source.extract e.attributesStart e.attributesStop ++ e.closing))
  inside : ∀ a ∈ e.attributes, e.attributesStart ≤ a.start ∧ a.stop ≤ e.attributesStop
  ordered : e.attributes.Pairwise (fun a b => a.stop ≤ b.start)
  written : ∀ a ∈ e.attributes, a.Written source e.attributesStop
  separated : ∀ i, e.attributesStart ≤ i → i < e.attributesStop →
    (∀ a ∈ e.attributes, i < a.start ∨ a.stop ≤ i) →
    ∃ c, source[i]? = some c ∧ SeparatesNames c

/-- An element that comes from a start tag has the attributes that are written in it. -/
theorem attributesPlaced_of_tagged
    {source : List Char} {e : Element}
    (h : e.heading.Tagged source e.selfClosing) :
    e.AttributesPlaced source := by
  obtain ⟨tag, after, hdrop, hself, hheading⟩ := h
  obtain ⟨name, attributes, start, startTagEnd, endTagStart, stop, selfClosing⟩ := e
  simp only [heading, StartTag.headingAt, Heading.mk.injEq, true_and] at hdrop hself hheading
  obtain ⟨rfl, rfl, rfl⟩ := hheading
  subst hself
  generalize hclosing : (if tag.selfClosing then ['/', '>'] else ['>']) = closing
  have hraw : tag.raw = ('<' :: tag.name) ++ (tag.attributePart ++ closing) := by
    rw [← hclosing]
    simp [StartTag.raw]
  have hlength : start + tag.raw.length =
      start + 1 + tag.name.length + tag.attributePart.length + closing.length := by
    rw [hraw]
    simp only [List.length_append, List.length_cons]
    omega
  have hstop : start + tag.raw.length - closing.length =
      start + 1 + tag.name.length + tag.attributePart.length := by
    omega
  have hpart : source.drop (start + 1 + tag.name.length) =
      tag.attributePart ++ (closing ++ after) := by
    rw [show start + 1 + tag.name.length = start + ('<' :: tag.name).length by simp; omega,
      ← List.drop_drop, hdrop, hraw, List.append_assoc, List.drop_left, List.append_assoc]
  have hslice : source.extract (start + 1 + tag.name.length)
      (start + 1 + tag.name.length + tag.attributePart.length) = tag.attributePart :=
    extract_eq_of_drop_eq [] tag.attributePart hpart
  constructor
  · simp only [attributesStart, attributesStop, Element.closing, hclosing, hstop, hslice]
    have hwhole : source.extract start (start + tag.raw.length) = tag.raw :=
      extract_eq_of_drop_eq [] tag.raw hdrop
    rw [hwhole, hraw]
    simp
  · intro a ha
    simp only [attributesStart, attributesStop, Element.closing, hclosing, hstop]
    exact attributesAt_within ha
  · exact attributesAt_ordered _ _
  · simp only [attributesStop, Element.closing, hclosing, hstop]
    exact attributesAt_written hpart
  · simp only [attributesStart, attributesStop, Element.closing, hclosing, hstop]
    intro i hlo hhi hgap
    obtain ⟨j, rfl⟩ := Nat.exists_eq_add_of_le hlo
    have hj : j < tag.attributePart.length := by omega
    refine ⟨tag.attributePart.get ⟨j, hj⟩, ?_,
      attributesAt_separated _ _ j _ (List.getElem?_eq_getElem hj) hgap⟩
    rw [← List.getElem?_drop, hpart, List.getElem?_append_left hj]
    exact List.getElem?_eq_getElem hj

end Element

/--
**Attributes.**  In every element of a parsed text the attributes stand in the start tag as they are
written there, from left to right, and what lies between them is white space, `=`, `/` or a quote.
-/
theorem parse_attributes_placed
    {source : List Char} {tree : Node} {e : Element}
    (h : parse source = .ok tree)
    (he : e ∈ tree.elements) :
    e.AttributesPlaced source :=
  Element.attributesPlaced_of_tagged (tagged_of_parse h he)

/-- Quotes without a partner of their own, a slash in a value, and signs that assign nothing. -/
theorem parse_attributes_placed_odd_quotes :
    ∃ source tree e,
      source = "<a f=g/h 'x=\"y' \"k = l>\" =e//>".toList ∧
      parse source = .ok tree ∧ e ∈ tree.elements ∧
      e.attributes = [⟨['f'], ['g', '/', 'h'], 3, 8⟩, ⟨['x'], ['y', '\'', ' '], 10, 17⟩,
        ⟨['k'], ['l', '>'], 17, 23⟩, ⟨['e'], [], 26, 27⟩] ∧
      e.AttributesPlaced source := by
  have hparse : parse "<a f=g/h 'x=\"y' \"k = l>\" =e//>".toList =
      .ok (.document 30
        [.element ⟨['a'], [⟨['f'], ['g', '/', 'h'], 3, 8⟩, ⟨['x'], ['y', '\'', ' '], 10, 17⟩,
          ⟨['k'], ['l', '>'], 17, 23⟩, ⟨['e'], [], 26, 27⟩], 0, 30, none, 30, true⟩ []]) := by
    with_unfolding_all rfl
  have he : ∀ e, e ∈ (Node.document 30 [.element e []]).elements := by
    intro e
    simp [elements_document, element?]
  exact ⟨_, _, _, rfl, hparse, he _, rfl, parse_attributes_placed hparse (he _)⟩

end Markup
end NuspecLint
