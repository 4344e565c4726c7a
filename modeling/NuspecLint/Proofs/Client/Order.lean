import NuspecLint.Proofs.Client.Wire
import NuspecLint.Proofs.Position.Inverse

/-!
# Ranges on the wire

A client splits a text into more lines than the line table does, and may find a line shorter than
the table has it.  Even so the ends of a range that is told to it are on the lines of the range, and
it does not end before it starts.

**Count.**  Every line end of the table ends a line of the client too.  So there are at least as
many lines of the client as there are line ends, and the line of a position is one of them or the
place behind the last.

**Results.**
* `Text.length_lineStartsFrom_le`: the two ways to split a text, compared by their numbers.
* `Encoding.toClient_line`: a client is told the line that a position has.
* `toWire_rangeOf`: ranges between any two integers are converted, on their lines and in order, and
  sent if the number of units fits.
* `toWire_unbroken`: what is sent about a text on one line, from end to end.
-/

namespace NuspecLint

namespace Text

/-- A character in front of the first line takes no line away. -/
theorem length_le_length_pushFront (c : Char) (lines : List (List Char)) :
    lines.length ≤ (pushFront c lines).length := by
  cases lines with
  | nil =>
      exact Nat.zero_le _
  | cons line lines =>
      exact Nat.le_refl _

theorem flatten_pushFront (c : Char) (lines : List (List Char)) :
    (pushFront c lines).flatten = c :: lines.flatten := by
  cases lines with
  | nil =>
      rfl
  | cons line lines =>
      rfl

/-- The lines of a client make up the text. -/
theorem flatten_splitLines (s : List Char) :
    (splitLines s).flatten = s := by
  induction s using newline_induction with
  | nil =>
      rfl
  | crlf s ih =>
      rw [splitLines, List.flatten_cons, ih]
      rfl
  | cons c s hclean ih =>
      rw [splitLines_cons hclean]
      split
      · rw [List.flatten_cons, ih]
        rfl
      · rw [flatten_pushFront, ih]

/-- Every line end of the line table ends a line of the client. -/
theorem length_lineStartsFrom_le (offset : Nat) (s : List Char) :
    (lineStartsFrom offset s).length ≤ (splitLines s).length := by
  induction s using newline_induction generalizing offset with
  | nil =>
      exact Nat.le_refl _
  | crlf s ih =>
      rw [lineStartsFrom, splitLines]
      exact Nat.succ_le_succ (ih (offset + 2))
  | cons c s hclean ih =>
      have hrest := ih (offset + 1)
      rw [lineStartsFrom_cons offset hclean, splitLines_cons hclean]
      by_cases hends : c = '\r' ∨ c = '\n'
      · rw [if_pos hends, if_pos (isLineSeparator_iff.mpr (Or.inl hends))]
        exact Nat.succ_le_succ hrest
      · rw [if_neg hends]
        split
        · exact hrest.trans (Nat.le_succ _)
        · exact hrest.trans (length_le_length_pushFront c _)

end Text

open Text

/-- The one place of a client is not after the other; lines are compared first. -/
def ClientPosition.NotAfter (p q : ClientPosition) : Prop :=
  p.line < q.line ∨ (p.line = q.line ∧ p.character ≤ q.character)

namespace Encoding

variable (e : Encoding)

theorem width_le_width
    {u v : List Char}
    (h : u <+: v) :
    e.width u ≤ e.width v := by
  obtain ⟨w, rfl⟩ := h
  rw [width_append]
  exact Nat.le_add_right _ _

/-- Each character counts at least one unit. -/
theorem length_le_width (s : List Char) :
    s.length ≤ e.width s := by
  induction s with
  | nil =>
      exact Nat.le_refl _
  | cons c s ih =>
      have hpos := e.units_pos c
      rw [width, List.length_cons]
      omega

theorem width_le_of_mem
    {line : List Char} {lines : List (List Char)}
    (h : line ∈ lines) :
    e.width line ≤ e.width lines.flatten := by
  obtain ⟨before, after, rfl⟩ := List.append_of_mem h
  rw [List.flatten_append, List.flatten_cons, width_append, width_append]
  omega

variable {lines : List (List Char)} {line : Nat}

/-- A line of the client, or the place behind the last, is told as it is. -/
theorem toClient_line
    (h : line ≤ lines.length)
    (character : Nat) :
    (e.toClient lines line character).line = line := by
  unfold toClient
  split
  · next hnone =>
      exact Nat.le_antisymm (List.getElem?_eq_none_iff.mp hnone) h
  · rfl

theorem toClient_character_le (line character : Nat) (lines : List (List Char)) :
    (e.toClient lines line character).character ≤ e.width lines.flatten := by
  unfold toClient
  split
  · exact Nat.zero_le _
  · next found hfound =>
      exact (e.width_le_width (List.take_prefix character found)).trans
        (e.width_le_of_mem (List.mem_of_getElem? hfound))

/-- On one line, more characters are not fewer units. -/
theorem toClient_character_mono
    {character character' : Nat}
    (h : character ≤ character') :
    (e.toClient lines line character).character ≤
      (e.toClient lines line character').character := by
  unfold toClient
  split
  · exact Nat.le_refl _
  · exact e.width_le_width (List.take_prefix_take_left h)

/-- Places in order are told in order. -/
theorem toClient_notAfter
    {line' character character' : Nat}
    (hline : line ≤ lines.length)
    (hline' : line' ≤ lines.length)
    (h : line < line' ∨ (line = line' ∧ character ≤ character')) :
    (e.toClient lines line character).NotAfter (e.toClient lines line' character') := by
  rw [ClientPosition.NotAfter, e.toClient_line hline, e.toClient_line hline']
  rcases h with hlt | ⟨rfl, hle⟩
  · exact Or.inl hlt
  · exact Or.inr ⟨rfl, e.toClient_character_mono hle⟩

end Encoding

namespace LineTable

variable {text : List Char} {o : Nat}

/-- The line of a place is a line of the client, or the place behind the last. -/
theorem line_positionAt_le (text : List Char) (o : Int) :
    ((ofText text).positionAt o).line ≤ (splitLines text).length := by
  have hline : (locate ((ofText text).clamp o) 0 0 (lineStartsFrom 0 text)).1 =
      (lineStartsFrom 0 text).countP (· ≤ (ofText text).clamp o) := by
    rw [locate_fst 0 (pairwise_lineStartsFrom 0 text), Nat.zero_add]
  apply Int.ofNat_le.mpr
  calc
    (locate ((ofText text).clamp o) 0 0 (lineStartsFrom 0 text)).1
      = (lineStartsFrom 0 text).countP (· ≤ (ofText text).clamp o) := hline
    _ ≤ (lineStartsFrom 0 text).length := List.countP_le_length
    _ ≤ (splitLines text).length := length_lineStartsFrom_le 0 text

/-- The coordinates of a place fit on the wire if the length of the text does. -/
theorem exists_coordinates
    (hlength : (text.length : Int) ≤ greatestCoordinate)
    (ho : o ≤ text.length) :
    ∃ line character : Nat,
      (ofText text).positionAt o = ⟨line, character⟩ ∧
      ((ofText text).positionAt o).checked = .ok (line, character) ∧
      line ≤ (splitLines text).length := by
  obtain ⟨before, _, count, _, _, _, _, hchecked⟩ := exists_checked_positionAt hlength ho
  obtain ⟨hposition, _⟩ := Position.eq_of_checked hchecked
  have hline := line_positionAt_le text o
  rw [hposition] at hline
  exact ⟨count, o - before.length, hposition, hchecked, Int.ofNat_le.mp hline⟩

end LineTable

section Units

variable {e : Encoding} {text : List Char} {d : Diagnostic} {wire : WireDiagnostic}

/-- No character that a client is told exceeds the units of the text. -/
theorem characters_le_of_toUnits
    (h : toUnits e text d = .ok wire) :
    wire.range.start.character ≤ e.width text ∧ wire.range.stop.character ≤ e.width text := by
  obtain ⟨start, stop, _, _, hfirst, hlast⟩ := exists_checked_of_toUnits h
  have hle := fun line character => e.toClient_character_le line character (splitLines text)
  simp only [flatten_splitLines] at hle
  rw [hfirst, hlast]
  exact ⟨hle start.1 start.2, hle stop.1 stop.2⟩

/-- What is converted is sent if the units of the text fit on the wire. -/
theorem toWire_of_width_le
    (h : toUnits e text d = .ok wire)
    (hwidth : (e.width text : Int) ≤ greatestCoordinate) :
    toWire e text d = .ok wire := by
  obtain ⟨hstart, hstop⟩ := characters_le_of_toUnits h
  exact (sentIfFitting_of_toUnits h).sent_iff.mpr
    ⟨(Int.ofNat_le.mpr hstart).trans hwidth, (Int.ofNat_le.mpr hstop).trans hwidth⟩

end Units

/--
**Ranges on the wire are in order, and on their lines.**  A diagnostic between any two integers, in
a text whose length fits on the wire, is converted, whatever separators the text holds and whatever
the client counts in.  The client is told the two lines of the range, and a start that is not after
the end.  No character that it is told exceeds the units of the text.  What is converted is sent if
both characters fit on the wire, and refused otherwise; so it is sent if the units of the text fit.
-/
theorem toWire_rangeOf
    {text : List Char} {d : Diagnostic} {a b : Int}
    (e : Encoding)
    (hlength : (text.length : Int) ≤ greatestCoordinate)
    (hrange : d.range = (LineTable.ofText text).rangeOf a b) :
    ∃ wire,
      toUnits e text d = .ok wire ∧
      (wire.range.start.line : Int) = d.range.start.line ∧
      (wire.range.stop.line : Int) = d.range.stop.line ∧
      wire.range.start.NotAfter wire.range.stop ∧
      wire.range.start.character ≤ e.width text ∧ wire.range.stop.character ≤ e.width text ∧
      SentIfFitting e text d wire ∧
      ((e.width text : Int) ≤ greatestCoordinate → toWire e text d = .ok wire) := by
  have hfirst : (LineTable.ofText text).clamp a ≤ text.length := Nat.min_le_right _ _
  have hlast : max ((LineTable.ofText text).clamp a) ((LineTable.ofText text).clamp b) ≤
      text.length := Nat.max_le.mpr ⟨hfirst, Nat.min_le_right _ _⟩
  obtain ⟨line, character, hstart, hchecked, hline⟩ :=
    LineTable.exists_coordinates hlength hfirst
  obtain ⟨line', character', hstop, hchecked', hline'⟩ :=
    LineTable.exists_coordinates hlength hlast
  have hle := LineTable.positionAt_le_positionAt (LineTable.ordered_ofText text)
    (Nat.le_max_left _ ((LineTable.ofText text).clamp b)) hlast
  rw [hstart, hstop, Position.le_iff, Int.ofNat_lt, Int.ofNat_inj, Int.ofNat_le] at hle
  have hunits : toUnits e text d =
      .ok ⟨⟨e.toClient (splitLines text) line character,
        e.toClient (splitLines text) line' character'⟩, d.severity, d.message, d.ruleId⟩ := by
    rw [toUnits, hrange]
    simp only [LineTable.rangeOf, hchecked, hchecked']
    rfl
  obtain ⟨hcharacter, hcharacter'⟩ := characters_le_of_toUnits hunits
  refine ⟨_, hunits, ?_, ?_, e.toClient_notAfter hline hline' hle, hcharacter, hcharacter',
    sentIfFitting_of_toUnits hunits, toWire_of_width_le hunits⟩
  · rw [e.toClient_line hline, hrange, LineTable.rangeOf, hstart]
  · rw [e.toClient_line hline', hrange, LineTable.rangeOf, hstop]

/-- A line that a form feed breaks for a client, and a line end. -/
def fedLine : List Char :=
  "ab\x0c😀😀\n".toList

/--
From behind the form feed to far beyond the end: the start is clamped to the part of the line that a
client sees, and the end is on the next line.
-/
theorem toWire_rangeOf_clamped :
    ∃ wire,
      toWire .utf16 fedLine ⟨"", "", (LineTable.ofText fedLine).rangeOf 5 99, .hint⟩ = .ok wire ∧
      wire.range.start.line = 0 ∧ wire.range.stop.line = 1 ∧
      wire.range.start.NotAfter wire.range.stop := by
  obtain ⟨wire, _, hstart, hstop, horder, _, _, _, hsent⟩ :=
    @toWire_rangeOf fedLine ⟨"", "", (LineTable.ofText fedLine).rangeOf 5 99, .hint⟩ 5 99 .utf16
      (by decide) rfl
  exact ⟨wire, hsent (by decide), Int.ofNat_inj.mp hstart, Int.ofNat_inj.mp hstop, horder⟩

section Unbroken

variable {s : List Char}

/-- A text without separators is one line for the client. -/
theorem Text.splitLines_unbroken
    (hne : s ≠ [])
    (h : ∀ c ∈ s, isLineSeparator c = false) :
    splitLines s = [s] := by
  induction s with
  | nil =>
      exact absurd rfl hne
  | cons c s ih =>
      have hreturn : c ≠ '\r' := by
        rintro rfl
        exact absurd (h '\r' (by simp)) (by decide)
      rw [splitLines_cons (cleanCut_singleton hreturn), h c (by simp)]
      cases s with
      | nil =>
          rfl
      | cons d s =>
          rw [ih (by simp) fun x hx => h x (List.mem_cons_of_mem c hx)]
          rfl

/-- Nor does the line table know a second line of it. -/
theorem lineStartsFrom_unbroken
    (h : ∀ c ∈ s, isLineSeparator c = false)
    (offset : Nat) :
    lineStartsFrom offset s = [] := by
  induction s generalizing offset with
  | nil =>
      rfl
  | cons c s ih =>
      have hplain : ¬ (c = '\r' ∨ c = '\n') := by
        intro hends
        have hc := h c (by simp)
        rw [isLineSeparator_iff.mpr (Or.inl hends)] at hc
        cases hc
      have hreturn : c ≠ '\r' := fun hc => hplain (Or.inl hc)
      rw [lineStartsFrom_cons offset (cleanCut_singleton hreturn), if_neg hplain,
        ih fun x hx => h x (List.mem_cons_of_mem c hx)]

/-- From end to end of a text on one line, the client is told all its units, if they fit. -/
theorem toWire_unbroken
    {d : Diagnostic}
    (e : Encoding)
    (hlength : (s.length : Int) ≤ greatestCoordinate)
    (hne : s ≠ [])
    (h : ∀ c ∈ s, isLineSeparator c = false)
    (hrange : d.range = (LineTable.ofText s).rangeOf 0 s.length) :
    toWire e s d =
      if (e.width s : Int) ≤ greatestCoordinate then
        .ok ⟨⟨⟨0, 0⟩, ⟨0, e.width s⟩⟩, d.severity, d.message, d.ruleId⟩
      else .error (.character (e.width s)) := by
  have hposition : ∀ o : Nat, o ≤ s.length →
      (LineTable.ofText s).positionAt o = ⟨0, o⟩ := by
    intro o ho
    have hclamp : (LineTable.ofText s).clamp o = o := by
      simp [LineTable.clamp, LineTable.ofText, ho]
    simp only [LineTable.positionAt, hclamp]
    rw [LineTable.ofText, lineStartsFrom_unbroken h]
    simp [locate]
  have hchecked : ∀ o : Nat, o ≤ s.length →
      (Position.mk 0 o).checked = .ok (0, o) := by
    intro o ho
    have hfits : Position.fits o = true := by
      simp only [Position.fits, Bool.and_eq_true, decide_eq_true_eq]
      omega
    simp [Position.checked, hfits, show Position.fits 0 = true from rfl]
  have hunits : toUnits e s d =
      .ok ⟨⟨⟨0, 0⟩, ⟨0, e.width s⟩⟩, d.severity, d.message, d.ruleId⟩ := by
    have hstart := hposition 0 (Nat.zero_le _)
    rw [Nat.cast_zero] at hstart
    rw [toUnits, hrange, LineTable.rangeOf_whole, hstart, hposition _ le_rfl]
    have hchecked' := hchecked 0 (Nat.zero_le _)
    rw [Nat.cast_zero] at hchecked'
    simp only [hchecked', hchecked _ le_rfl, splitLines_unbroken hne h, Encoding.toClient]
    simp [bind, Except.bind, pure, Except.pure, Encoding.width]
  have hsent := sentIfFitting_of_toUnits hunits
  have hzero : ((0 : Nat) : Int) ≤ greatestCoordinate := by
    decide
  split
  · next hfits =>
      exact hsent.sent_iff.mpr ⟨hzero, hfits⟩
  · next hgreat =>
      exact hsent.stop_refused hzero (not_le.mp hgreat)

/-- A text of emojis, each of which counts two units in UTF-16. -/
def emojis (n : Nat) : List Char :=
  List.replicate n '😀'

theorem width_emojis (n : Nat) :
    Encoding.utf16.width (emojis n) = 2 * n := by
  induction n with
  | zero =>
      rfl
  | succ n ih =>
      rw [emojis, List.replicate_succ, Encoding.width, ← emojis, ih]
      have hunits : Encoding.utf16.units '😀' = 2 := by decide
      omega

theorem toWire_emojis
    {n : Nat}
    (hpos : 0 < n)
    (hlength : (n : Int) ≤ greatestCoordinate) :
    toWire .utf16 (emojis n) ⟨"", "", (LineTable.ofText (emojis n)).rangeOf 0 n, .hint⟩ =
      if ((2 * n : Nat) : Int) ≤ greatestCoordinate then
        .ok ⟨⟨⟨0, 0⟩, ⟨0, 2 * n⟩⟩, .hint, "", ""⟩
      else .error (.character (2 * n : Nat)) := by
  have hsize : (emojis n).length = n := List.length_replicate
  have hne : emojis n ≠ [] := by
    rw [ne_eq, ← List.length_eq_zero_iff, hsize]
    omega
  have hplain : ∀ c ∈ emojis n, isLineSeparator c = false := by
    intro c hc
    rw [List.eq_of_mem_replicate hc]
    decide
  rw [toWire_unbroken .utf16 (by rwa [hsize]) hne hplain (by rw [hsize]), width_emojis]

/-- A text that is short enough, but with too many units for the wire. -/
theorem toWire_refuses_wide :
    ((emojis (2 ^ 30)).length : Int) ≤ greatestCoordinate ∧
    toWire .utf16 (emojis (2 ^ 30))
        ⟨"", "", (LineTable.ofText (emojis (2 ^ 30))).rangeOf 0 (2 ^ 30 : Nat), .hint⟩ =
      .error (.character 2147483648) := by
  have hlength : ((2 ^ 30 : Nat) : Int) ≤ greatestCoordinate := by
    unfold greatestCoordinate
    norm_num
  constructor
  · rwa [emojis, List.length_replicate]
  · rw [toWire_emojis (by norm_num) hlength, if_neg (by unfold greatestCoordinate; norm_num)]
    norm_num

end Unbroken

end NuspecLint
