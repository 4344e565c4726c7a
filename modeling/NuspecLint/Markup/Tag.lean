import NuspecLint.Markup.Attribute

/-!
# Tags

Start tags and end tags at the front of a text.

**Algorithm.**  A start tag is `<`, a non-empty maximal run of name characters, and everything
up to the first `>` outside quoted strings.  The tag is refused if a `<` outside quotes, or the
end of the text, comes before that `>`; a quote without a partner runs to the end of the text.
An end tag is `</`, a name, white space and `>`.

**Results.**
* `StartTag.eq_append_of_read?` and `EndTag.eq_append_of_read?`: a tag is read as the characters
  it stands on.
-/

namespace NuspecLint
namespace Markup

open Text

/-- The characters of an element's name in a start tag. -/
def isTagNameChar (c : Char) : Bool :=
  !isBlank c && !isQuote c &&
    c != '/' && c != '<' && c != '>' && c != '!' && c != '?' && c != '='

/-- The characters of a name in an end tag. -/
def isEndNameChar (c : Char) : Bool :=
  !isBlank c && c != '<' && c != '>'

/--
Cut a text at the first `>` outside quoted strings, unless a `<` outside them comes first.
The state is the quote that is open, if one is.
-/
def splitTagEnd? : Option Char → List Char → Option (List Char × List Char)
  | _, [] => none
  | some quote, c :: s =>
      (splitTagEnd? (if c = quote then none else some quote) s).map fun cut =>
        (c :: cut.1, cut.2)
  | none, c :: s =>
      if c = '>' then some ([], s)
      else if c = '<' then none
      else
        (splitTagEnd? (if isQuote c then some c else none) s).map fun cut =>
          (c :: cut.1, cut.2)

theorem eq_append_of_splitTagEnd?
    {quote : Option Char} {s before after : List Char}
    (h : splitTagEnd? quote s = some (before, after)) :
    s = before ++ '>' :: after := by
  induction s generalizing quote before after with
  | nil => cases quote <;> simp [splitTagEnd?] at h
  | cons c s ih =>
      cases quote with
      | some quote =>
          simp only [splitTagEnd?] at h
          obtain ⟨cut, hcut, heq⟩ :=
            Option.map_eq_some_iff.mp h
          simp only [Prod.mk.injEq] at heq
          obtain ⟨rfl, rfl⟩ := heq
          simpa using ih hcut
      | none =>
          simp only [splitTagEnd?] at h
          split at h
          · next hc =>
              simp only [Option.some.injEq, Prod.mk.injEq] at h
              obtain ⟨rfl, rfl⟩ := h
              simp [hc]
          · split at h
            · simp at h
            · obtain ⟨cut, hcut, heq⟩ :=
                Option.map_eq_some_iff.mp h
              simp only [Prod.mk.injEq] at heq
              obtain ⟨rfl, rfl⟩ := heq
              simpa using ih hcut

/-- A start tag: its name, the part that holds its attributes, and how it closes. -/
structure StartTag where
  name : List Char
  attributePart : List Char
  selfClosing : Bool
  deriving Repr, DecidableEq

namespace StartTag

/-- The characters a start tag is written with. -/
def raw (t : StartTag) : List Char :=
  '<' :: (t.name ++ (t.attributePart ++ if t.selfClosing then ['/', '>'] else ['>']))

/-- A tag whose last character before the `>` is a slash closes itself. -/
def ofBody (name body : List Char) : StartTag :=
  if body.getLast? = some '/' then ⟨name, body.dropLast, true⟩
  else ⟨name, body, false⟩

/-- Read a start tag at the front of a text that begins with `<`. -/
def read? : List Char → Option (StartTag × List Char)
  | [] => none
  | _ :: s =>
      let name := s.takeWhile isTagNameChar
      if name.isEmpty then none
      else
        (splitTagEnd? none (s.dropWhile isTagNameChar)).map fun cut =>
          (ofBody name cut.1, cut.2)

theorem raw_ofBody (name body : List Char) :
    (ofBody name body).raw = '<' :: (name ++ (body ++ ['>'])) := by
  unfold ofBody
  split
  · next h =>
      obtain ⟨front, rfl⟩ : ∃ front, body = front ++ ['/'] := by
        have hne : body ≠ [] := by
          rintro rfl
          simp at h
        refine ⟨body.dropLast, ?_⟩
        have hlast : body.getLast hne = '/' := by
          rw [List.getLast?_eq_some_getLast hne] at h
          simpa using h
        rw [← hlast, List.dropLast_concat_getLast]
      simp [raw]
  · simp [raw]

/-- A start tag is read as the characters it stands on. -/
theorem eq_append_of_read?
    {s rest : List Char} {t : StartTag}
    (h : read? ('<' :: s) = some (t, rest)) :
    '<' :: s = t.raw ++ rest := by
  simp only [read?] at h
  split at h
  · simp at h
  · obtain ⟨cut, hcut, heq⟩ :=
      Option.map_eq_some_iff.mp h
    simp only [Prod.mk.injEq] at heq
    obtain ⟨rfl, rfl⟩ := heq
    have hs := List.takeWhile_append_dropWhile (p := isTagNameChar) (l := s)
    rw [eq_append_of_splitTagEnd? hcut] at hs
    simp [raw_ofBody, hs]

end StartTag

/-- An end tag: its name and the white space before its `>`. -/
structure EndTag where
  name : List Char
  gap : List Char
  deriving Repr, DecidableEq

namespace EndTag

/-- The characters an end tag is written with. -/
def raw (t : EndTag) : List Char :=
  '<' :: '/' :: (t.name ++ (t.gap ++ ['>']))

/-- Read an end tag at the front of a text that begins with `</`. -/
def read? : List Char → Option (EndTag × List Char)
  | _ :: _ :: s =>
      let name := s.takeWhile isEndNameChar
      let rest := s.dropWhile isEndNameChar
      if name.isEmpty then none
      else
        match rest.dropWhile isBlank with
        | [] => none
        | c :: after =>
            if c = '>' then some (⟨name, rest.takeWhile isBlank⟩, after) else none
  | _ => none

/-- An end tag is read as the characters it stands on. -/
theorem eq_append_of_read?
    {s rest : List Char} {t : EndTag}
    (h : read? ('<' :: '/' :: s) = some (t, rest)) :
    '<' :: '/' :: s = t.raw ++ rest := by
  simp only [read?] at h
  split at h
  · simp at h
  · split at h
    · simp at h
    · next c after hdrop =>
        split at h
        · next hc =>
            simp only [Option.some.injEq, Prod.mk.injEq] at h
            obtain ⟨rfl, rfl⟩ := h
            have hs := List.takeWhile_append_dropWhile (p := isEndNameChar) (l := s)
            have hr :=
              List.takeWhile_append_dropWhile (p := isBlank) (l := s.dropWhile isEndNameChar)
            rw [hdrop, hc] at hr
            rw [← hr] at hs
            simpa [raw] using hs.symm
        · simp at h

end EndTag

end Markup
end NuspecLint
