import NuspecLint.Text.Blank
import NuspecLint.Text.Search

/-!
# Attributes

The attributes written in a start tag.

**Input.**  The part of a start tag between its name and its closing `>` or `/>`, and the
offset of that part in the document.

**Algorithm.**  The part is read from left to right.  A maximal run of name characters starts
an attribute; the attribute takes an assignment with it if one follows, and ends with the name
otherwise.  Any other character (white space, `=`, `/` or a quote) is passed over.

**Results.**
* `AttributeText.eq_append_of_read`: an attribute is read as the characters it stands on.
-/

namespace NuspecLint
namespace Markup

open Text

/-- The two characters that enclose quoted strings. -/
def isQuote (c : Char) : Bool :=
  c == '"' || c == '\''

/-- The characters of an attribute's name. -/
def isAttributeNameChar (c : Char) : Bool :=
  !isBlank c && !isQuote c && c != '=' && c != '/'

/-- The characters of a value that stands without quotes. -/
def isBareChar (c : Char) : Bool :=
  !isBlank c && !isQuote c

/-- The two ways of writing an attribute's value. -/
inductive ValueText where
  | bare (run : List Char)
  | quoted (quote : Char) (inside : List Char)
  deriving Repr, DecidableEq

namespace ValueText

/-- The characters the value is written with. -/
def raw : ValueText → List Char
  | bare run => run
  | quoted quote inside => quote :: (inside ++ [quote])

/-- The value itself, without quotes. -/
def value : ValueText → List Char
  | bare run => run
  | quoted _ inside => inside

/-- Read a value at the front of a text: a string closed by its quote, or a maximal bare run. -/
def read? : List Char → Option (ValueText × List Char)
  | [] => none
  | c :: s =>
      if isQuote c then
        (splitAt? [c] s).map fun cut => (quoted c cut.1, cut.2)
      else if isBareChar c then
        some (bare (c :: s.takeWhile isBareChar), s.dropWhile isBareChar)
      else none

theorem eq_append_of_read?
    {s rest : List Char} {v : ValueText}
    (h : read? s = some (v, rest)) :
    s = v.raw ++ rest := by
  cases s with
  | nil => simp [read?] at h
  | cons c s =>
      simp only [read?] at h
      split at h
      · obtain ⟨cut, hcut, heq⟩ :=
          Option.map_eq_some_iff.mp h
        simp only [Prod.mk.injEq] at heq
        obtain ⟨rfl, rfl⟩ := heq
        simp [raw, eq_append_of_splitAt? hcut]
      · split at h
        · simp only [Option.some.injEq, Prod.mk.injEq] at h
          obtain ⟨rfl, rfl⟩ := h
          simp [raw]
        · simp at h

end ValueText

/-- What gives an attribute its value: an equals sign, white space around it, and the value. -/
structure Assignment where
  gapBefore : List Char
  gapAfter : List Char
  value : ValueText
  deriving Repr, DecidableEq

namespace Assignment

/-- The characters the assignment is written with. -/
def raw (a : Assignment) : List Char :=
  a.gapBefore ++ '=' :: (a.gapAfter ++ a.value.raw)

/-- Read an assignment at the front of a text. -/
def read? (s : List Char) : Option (Assignment × List Char) :=
  match s.dropWhile isBlank with
  | [] => none
  | c :: t =>
      if c = '=' then
        (ValueText.read? (t.dropWhile isBlank)).map fun found =>
          (⟨s.takeWhile isBlank, t.takeWhile isBlank, found.1⟩, found.2)
      else none

theorem eq_append_of_read?
    {s rest : List Char} {a : Assignment}
    (h : read? s = some (a, rest)) :
    s = a.raw ++ rest := by
  unfold read? at h
  split at h
  · simp at h
  · next c t hdrop =>
      split at h
      · next hc =>
          obtain ⟨found, hfound, heq⟩ :=
            Option.map_eq_some_iff.mp h
          simp only [Prod.mk.injEq] at heq
          obtain ⟨rfl, rfl⟩ := heq
          have hs := List.takeWhile_append_dropWhile (p := isBlank) (l := s)
          have ht := List.takeWhile_append_dropWhile (p := isBlank) (l := t)
          rw [hdrop, hc] at hs
          rw [ValueText.eq_append_of_read? hfound] at ht
          simpa [raw, ht] using hs.symm
      · simp at h

end Assignment

/-- An attribute as it is written. -/
structure AttributeText where
  name : List Char
  assignment : Option Assignment
  deriving Repr, DecidableEq

namespace AttributeText

/-- The characters the attribute is written with. -/
def raw (a : AttributeText) : List Char :=
  a.name ++ (a.assignment.map Assignment.raw).getD []

/-- The value of the attribute; empty if it is given none. -/
def value (a : AttributeText) : List Char :=
  (a.assignment.map fun x => x.value.value).getD []

/-- Read the attribute whose name starts with `c`. -/
def read (c : Char) (s : List Char) : AttributeText × List Char :=
  let name := c :: s.takeWhile isAttributeNameChar
  let rest := s.dropWhile isAttributeNameChar
  match Assignment.read? rest with
  | some (a, rest) => (⟨name, some a⟩, rest)
  | none => (⟨name, none⟩, rest)

/-- An attribute is read as the characters it stands on. -/
theorem eq_append_of_read
    (c : Char) (s : List Char) :
    c :: s = (read c s).1.raw ++ (read c s).2 := by
  have hs := List.takeWhile_append_dropWhile (p := isAttributeNameChar) (l := s)
  unfold read
  simp only
  split
  · next a rest h =>
      rw [Assignment.eq_append_of_read? h] at hs
      simp [raw, hs]
  · simp [raw, hs]

theorem length_read_lt
    (c : Char) (s : List Char) :
    (read c s).2.length < (c :: s).length := by
  have h := congrArg List.length (eq_append_of_read c s)
  have hname : 0 < (read c s).1.raw.length := by
    unfold read
    simp only
    split <;> simp [raw]
  rw [List.length_append] at h
  omega

end AttributeText

/-- An attribute of an element, with the half-open span it is written on. -/
structure Attribute where
  name : List Char
  value : List Char
  start : Nat
  stop : Nat
  deriving Repr, DecidableEq

/-- The attributes written in `part`, which stands at `offset`. -/
def attributesAt (offset : Nat) (part : List Char) : List Attribute :=
  match part with
  | [] => []
  | c :: s =>
      if isAttributeNameChar c then
        let found := AttributeText.read c s
        let stop := offset + found.1.raw.length
        ⟨found.1.name, found.1.value, offset, stop⟩ :: attributesAt stop found.2
      else attributesAt (offset + 1) s
termination_by part.length
decreasing_by
  · exact AttributeText.length_read_lt c s
  · simp

end Markup
end NuspecLint
