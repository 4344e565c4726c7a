import NuspecLint.Markup.Tag

/-!
# Pieces of a manifest

A manifest text is cut, from left to right, into the pieces that its markup makes of it.

**Input.**  Any text.

**Algorithm.**  At a `<` the text is read as an enclosure (comment, CDATA section, processing
instruction or other declaration), an end tag or a start tag, by the characters that follow.
An enclosure that is never closed stops the reading.  A `<` that begins no tag, and any other
character, begins a run of plain text that lasts until the next `<`.

**Results.**
* `Piece.raw_append_of_next`: a piece is read as the characters it stands on.
* `Piece.length_lt_of_next`: reading a piece makes progress.
-/

namespace NuspecLint
namespace Markup

open Text

/-- Markup that runs from fixed opening characters to fixed closing characters. -/
inductive Enclosure where
  | comment
  | cdata
  | instruction
  | declaration
  deriving Repr, DecidableEq

namespace Enclosure

/-- The characters that open the enclosure. -/
def opening : Enclosure → List Char
  | comment => ['<', '!', '-', '-']
  | cdata => ['<', '!', '[', 'C', 'D', 'A', 'T', 'A', '[']
  | instruction => ['<', '?']
  | declaration => ['<', '!']

/-- The characters that close the enclosure. -/
def terminator : Enclosure → List Char
  | comment => ['-', '-', '>']
  | cdata => [']', ']', '>']
  | instruction => ['?', '>']
  | declaration => ['>']

/-- What the enclosure is called in messages. -/
def label : Enclosure → String
  | comment => "comment"
  | cdata => "CDATA section"
  | instruction => "processing instruction"
  | declaration => "declaration"

/-- The enclosure that a text opens; the longer openings are tried before the shorter. -/
def opened? (s : List Char) : Option Enclosure :=
  [comment, cdata, instruction, declaration].find? fun k => k.opening.isPrefixOf s

theorem isPrefixOf_of_opened?
    {kind : Enclosure} {s : List Char}
    (h : opened? s = some kind) :
    kind.opening.isPrefixOf s = true :=
  List.find?_some (p := fun k : Enclosure => k.opening.isPrefixOf s) h

end Enclosure

/-- The failure of a text to close an enclosure that it opens at `offset`. -/
structure Unterminated where
  kind : Enclosure
  offset : Nat
  deriving Repr, DecidableEq

/-- The message for an enclosure that is never closed. -/
def Unterminated.message (u : Unterminated) : String :=
  "Unterminated " ++ u.kind.label ++ " at offset " ++ toString u.offset

/-- A piece of a manifest text. -/
inductive Piece where
  /-- An enclosure other than a CDATA section; it leaves nothing in the document. -/
  | skipped (kind : Enclosure) (body : List Char)
  /-- A CDATA section. -/
  | cdata (content : List Char)
  | endTag (tag : EndTag)
  | startTag (tag : StartTag)
  /-- Plain text up to the next `<`. -/
  | text (run : List Char)
  deriving Repr, DecidableEq

namespace Piece

/-- The characters the piece stands on. -/
def raw : Piece → List Char
  | skipped kind body => body ++ kind.terminator
  | cdata content => Enclosure.cdata.opening ++ (content ++ Enclosure.cdata.terminator)
  | endTag tag => tag.raw
  | startTag tag => tag.raw
  | text run => run

/--
Read the enclosure that `s` opens.  The closing characters of a CDATA section are searched
after its opening; those of any other enclosure from its very start, so that they may overlap
the opening.
-/
def ofEnclosure? (kind : Enclosure) (s : List Char) : Option (Piece × List Char) :=
  match kind with
  | .cdata =>
      (splitAt? Enclosure.cdata.terminator (s.drop Enclosure.cdata.opening.length)).map
        fun cut => (cdata cut.1, cut.2)
  | kind =>
      (splitAt? kind.terminator s).map fun cut => (skipped kind cut.1, cut.2)

/-- Read the tag at the front of a text that begins with `<`. -/
def ofTag? (s : List Char) : Option (Piece × List Char) :=
  match s with
  | '<' :: '/' :: _ => (EndTag.read? s).map fun found => (endTag found.1, found.2)
  | _ => (StartTag.read? s).map fun found => (startTag found.1, found.2)

/-- The run of plain text that starts with `c`. -/
def ofText (c : Char) (s : List Char) : Piece × List Char :=
  (text (c :: s.takeWhile (· != '<')), s.dropWhile (· != '<'))

/--
Read the first piece of the text `c :: s`, or name the enclosure that the text opens and never
closes.
-/
def next (c : Char) (s : List Char) : Except Enclosure (Piece × List Char) :=
  if c = '<' then
    match Enclosure.opened? (c :: s) with
    | some kind =>
        match ofEnclosure? kind (c :: s) with
        | some found => .ok found
        | none => .error kind
    | none => .ok ((ofTag? (c :: s)).getD (ofText c s))
  else .ok (ofText c s)

theorem raw_append_of_ofText (c : Char) (s : List Char) :
    (ofText c s).1.raw ++ (ofText c s).2 = c :: s := by
  simp [ofText, raw]

theorem raw_append_of_ofTag?
    {s rest : List Char} {p : Piece}
    (h : ofTag? ('<' :: s) = some (p, rest)) :
    p.raw ++ rest = '<' :: s := by
  unfold ofTag? at h
  split at h
  · obtain ⟨found, hfound, heq⟩ :=
      Option.map_eq_some_iff.mp h
    simp only [Prod.mk.injEq] at heq
    obtain ⟨rfl, rfl⟩ := heq
    next u hu =>
      simp only [List.cons.injEq, true_and] at hu
      subst hu
      exact (EndTag.eq_append_of_read? hfound).symm
  · obtain ⟨found, hfound, heq⟩ :=
      Option.map_eq_some_iff.mp h
    simp only [Prod.mk.injEq] at heq
    obtain ⟨rfl, rfl⟩ := heq
    exact (StartTag.eq_append_of_read? hfound).symm

theorem raw_append_of_ofEnclosure?
    {kind : Enclosure} {s rest : List Char} {p : Piece}
    (hopen : kind.opening.isPrefixOf s)
    (h : ofEnclosure? kind s = some (p, rest)) :
    p.raw ++ rest = s := by
  unfold ofEnclosure? at h
  split at h
  · obtain ⟨cut, hcut, heq⟩ :=
      Option.map_eq_some_iff.mp h
    simp only [Prod.mk.injEq] at heq
    obtain ⟨rfl, rfl⟩ := heq
    obtain ⟨tail, rfl⟩ := List.isPrefixOf_iff_prefix.mp hopen
    rw [List.drop_left] at hcut
    simp [raw, eq_append_of_splitAt? hcut]
  · obtain ⟨cut, hcut, heq⟩ :=
      Option.map_eq_some_iff.mp h
    simp only [Prod.mk.injEq] at heq
    obtain ⟨rfl, rfl⟩ := heq
    simpa [raw] using (eq_append_of_splitAt? hcut).symm

/-- A piece is read as the characters it stands on. -/
theorem raw_append_of_next
    {c : Char} {s rest : List Char} {p : Piece}
    (h : next c s = .ok (p, rest)) :
    p.raw ++ rest = c :: s := by
  unfold next at h
  split at h
  · next hc =>
      split at h
      · next kind hkind =>
          split at h
          · next found hfound =>
              simp only [Except.ok.injEq] at h
              subst h
              exact raw_append_of_ofEnclosure? (Enclosure.isPrefixOf_of_opened? hkind) hfound
          · simp at h
      · simp only [Except.ok.injEq] at h
        cases htag : ofTag? (c :: s) with
        | none =>
            rw [htag, Option.getD_none] at h
            have htext := raw_append_of_ofText c s
            rwa [h] at htext
        | some found =>
            rw [htag, Option.getD_some] at h
            rw [h, hc] at htag
            rw [hc]
            exact raw_append_of_ofTag? htag
  · simp only [Except.ok.injEq] at h
    have htext := raw_append_of_ofText c s
    rwa [h] at htext

/-- A piece that is read stands on at least one character. -/
theorem raw_ne_nil_of_next
    {c : Char} {s rest : List Char} {p : Piece}
    (h : next c s = .ok (p, rest)) :
    p.raw ≠ [] := by
  cases p with
  | skipped kind body => cases kind <;> simp [raw, Enclosure.terminator]
  | cdata content => simp [raw, Enclosure.opening]
  | endTag tag => simp [raw, EndTag.raw]
  | startTag tag => simp [raw, StartTag.raw]
  | text run =>
      have htext : ofText c s = (text run, rest) := by
        unfold next at h
        split at h
        · split at h
          · split at h
            · next hfound =>
                simp only [Except.ok.injEq] at h
                subst h
                unfold ofEnclosure? at hfound
                split at hfound <;> simp at hfound
            · simp at h
          · simp only [Except.ok.injEq] at h
            cases htag : ofTag? (c :: s) with
            | none => simpa [htag] using h
            | some found =>
                simp only [htag, Option.getD_some] at h
                subst h
                unfold ofTag? at htag
                split at htag <;> simp at htag
        · simpa using h
      simp only [ofText, Prod.mk.injEq, text.injEq] at htext
      simp [raw, ← htext.1]

/-- Reading a piece makes progress. -/
theorem length_lt_of_next
    {c : Char} {s rest : List Char} {p : Piece}
    (h : next c s = .ok (p, rest)) :
    rest.length < (c :: s).length := by
  have hlen := congrArg List.length (raw_append_of_next h)
  have hpos := List.length_pos_iff.mpr (raw_ne_nil_of_next h)
  rw [List.length_append] at hlen
  omega

end Piece

/--
The pieces of a text that stands at `offset`, or the first enclosure that is never closed.
-/
def piecesAt (offset : Nat) (s : List Char) : Except Unterminated (List Piece) :=
  match s with
  | [] => .ok []
  | c :: s =>
      match _ : Piece.next c s with
      | .error kind => .error ⟨kind, offset⟩
      | .ok (p, rest) =>
          (piecesAt (offset + p.raw.length) rest).map fun pieces => p :: pieces
termination_by s.length
decreasing_by exact Piece.length_lt_of_next ‹_›

/-- The pieces of a whole text. -/
def pieces (s : List Char) : Except Unterminated (List Piece) :=
  piecesAt 0 s

end Markup
end NuspecLint
