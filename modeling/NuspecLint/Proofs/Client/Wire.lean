import NuspecLint.Client.Wire
import NuspecLint.Proofs.Position

/-!
# Positions on the wire

The line table knows three line ends, a client knows more separators.  Positions that are counted
along the one kind of lines are told to a client that has the other.

**Results.**
* `exists_lineCut`: the line of an offset, cut out of the text.
* `Text.le_length_firstLine_iff`: how much of that line a client sees as one line.
* `sentIfFitting_of_toUnits`: what is converted is sent if the number of units fits on the wire.
* `toWire_exact_iff`: a client is told the line of an offset, and the exact number of units before
  it exactly if no other separator comes before its last character.
-/

namespace NuspecLint
namespace Text

/-- The separators after which a client starts a new line and the line table does not. -/
def extraSeparators : List Char :=
  ['\x0b', '\x0c', '\x1c', '\x1d', '\x1e', '\u0085', '\u2028', '\u2029']

theorem isLineSeparator_iff
    {c : Char} :
    isLineSeparator c = true ↔ (c = '\r' ∨ c = '\n') ∨ c ∈ extraSeparators := by
  simp only [isLineSeparator, extraSeparators, List.mem_cons, List.not_mem_nil, or_false,
    ← Char.toNat_inj, Bool.or_eq_true, Bool.and_eq_true, decide_eq_true_eq, beq_iff_eq,
    Char.reduceToNat]
  omega

section SplitLines

variable {s : List Char}

theorem splitLines_cons
    {c : Char}
    (h : CleanCut [c] s) :
    splitLines (c :: s) =
      if isLineSeparator c then [c] :: splitLines s else pushFront c (splitLines s) := by
  rw [splitLines]
  rintro t rfl rfl
  exact h rfl rfl

/-- The first line of a client; that of an empty text is empty. -/
def firstLine (s : List Char) : List Char :=
  (splitLines s).headD []

theorem firstLine_cons
    {c : Char}
    (h : CleanCut [c] s) :
    firstLine (c :: s) = c :: if isLineSeparator c then [] else firstLine s := by
  rw [firstLine, splitLines_cons h, firstLine]
  split
  · rfl
  · cases splitLines s <;> rfl

theorem prefix_firstLine (s : List Char) :
    firstLine s <+: s := by
  induction s using newline_induction with
  | nil =>
      exact List.prefix_rfl
  | crlf s _ =>
      exact ⟨s, by simp [firstLine, splitLines]⟩
  | cons c s hclean ih =>
      rw [firstLine_cons hclean, List.cons_prefix_cons]
      refine ⟨rfl, ?_⟩
      split
      · exact List.nil_prefix
      · exact ih

/-- A text on one line for the client that a line end of the line table ends. -/
theorem splitLines_append_ending
    {body ending after : List Char}
    (hbody : ∀ c ∈ body, isLineSeparator c = false)
    (hending : ending = ['\r', '\n'] ∨ ending = ['\r'] ∨ ending = ['\n'])
    (hclean : CleanCut ending after) :
    splitLines (body ++ (ending ++ after)) = (body ++ ending) :: splitLines after := by
  induction body with
  | nil =>
      rcases hending with rfl | rfl | rfl
      · simp [splitLines]
      · exact splitLines_cons hclean
      · exact splitLines_cons hclean
  | cons c body ih =>
      have hc := hbody c (by simp)
      have hreturn : c ≠ '\r' := by
        rintro rfl
        exact absurd hc (by decide)
      rw [List.cons_append, splitLines_cons (cleanCut_singleton hreturn), hc,
        ih (fun d hd => hbody d (by simp [hd]))]
      rfl

end SplitLines

end Text

open Text

section LineCut

variable {s : List Char}

theorem lineStartsFrom_add (offset k : Nat) (s : List Char) :
    lineStartsFrom (offset + k) s = (lineStartsFrom offset s).map (· + k) := by
  induction s using newline_induction generalizing offset with
  | nil =>
      rfl
  | crlf s ih =>
      simp only [lineStartsFrom, List.map_cons, ← ih, Nat.add_right_comm]
  | cons c s hclean ih =>
      rw [lineStartsFrom_cons _ hclean, lineStartsFrom_cons _ hclean, Nat.add_right_comm, ih]
      split
      · rfl
      · rfl

/-- The first line end of the line table, and what stands around it. -/
theorem exists_ending_of_lineStartsFrom
    {offset next : Nat} {starts : List Nat}
    (h : lineStartsFrom offset s = next :: starts) :
    ∃ body ending after,
      s = body ++ (ending ++ after) ∧ OneLine body ∧
      (ending = ['\r', '\n'] ∨ ending = ['\r'] ∨ ending = ['\n']) ∧ CleanCut ending after ∧
      next = offset + (body ++ ending).length ∧ starts = lineStartsFrom next after := by
  induction s using newline_induction generalizing offset with
  | nil =>
      cases h
  | crlf s _ =>
      cases h
      exact ⟨[], ['\r', '\n'], s, rfl, by simp [OneLine], Or.inl rfl, by simp [CleanCut], rfl, rfl⟩
  | cons c s hclean ih =>
      rw [lineStartsFrom_cons _ hclean] at h
      split at h
      · next hc =>
          cases h
          refine ⟨[], [c], s, rfl, by simp [OneLine], ?_, hclean, rfl, rfl⟩
          rcases hc with rfl | rfl
          · exact Or.inr (Or.inl rfl)
          · exact Or.inr (Or.inr rfl)
      · next hc =>
          obtain ⟨body, ending, after, rfl, hbody, hending, hcut, hnext, hstarts⟩ := ih h
          refine ⟨c :: body, ending, after, rfl, ?_, hending, hcut, ?_, hstarts⟩
          · intro d hd
            rcases List.mem_cons.mp hd with rfl | hd
            · exact not_or.mp hc
            · exact hbody d hd
          · rw [hnext, List.cons_append, List.length_cons]
            omega

/--
`rest` starts with the line that holds the place `n` characters behind the start of
`before ++ rest`, and `before` holds `count` lines.
-/
structure LineCut (n : Nat) (before rest : List Char) (count : Nat) : Prop where
  length_le : before.length ≤ n
  count_le : count ≤ before.length
  unbroken : ∀ next ∈ (lineStartsFrom 0 rest).head?, n < before.length + next
  splitLines_eq :
    (∀ c ∈ before, c ∉ extraSeparators) →
      ∃ lines, lines.length = count ∧ splitLines (before ++ rest) = lines ++ splitLines rest

/-- A line in front of those before the cut. -/
theorem LineCut.cons
    {n count : Nat} {body ending before rest : List Char}
    (h : LineCut n before rest count)
    (hbody : OneLine body)
    (hending : ending = ['\r', '\n'] ∨ ending = ['\r'] ∨ ending = ['\n'])
    (hclean : CleanCut ending (before ++ rest)) :
    LineCut ((body ++ ending).length + n) ((body ++ ending) ++ before) rest (count + 1) := by
  have hpos : 0 < ending.length := by
    rcases hending with rfl | rfl | rfl <;> simp
  have hle := h.length_le
  have hcount := h.count_le
  refine ⟨?_, ?_, ?_, ?_⟩
  · simp only [List.length_append]
    omega
  · simp only [List.length_append]
    omega
  · intro next hnext
    have hlt := h.unbroken next hnext
    simp only [List.length_append]
    omega
  · intro hextra
    obtain ⟨lines, hlines, hsplit⟩ := h.splitLines_eq fun c hc => hextra c (by simp [hc])
    refine ⟨(body ++ ending) :: lines, by simp [hlines], ?_⟩
    have hplain : ∀ c ∈ body, isLineSeparator c = false := by
      intro c hc
      rw [Bool.eq_false_iff, ne_eq, isLineSeparator_iff, not_or, not_or]
      exact ⟨hbody c hc, hextra c (by simp [hc])⟩
    rw [List.append_assoc, List.append_assoc, splitLines_append_ending hplain hending hclean,
      hsplit]
    rfl

/-- The line of an offset starts where the line table says. -/
theorem exists_lineCut (line offset n : Nat) (s : List Char) :
    ∃ before rest count,
      s = before ++ rest ∧ LineCut n before rest count ∧
      locate (offset + n) line offset (lineStartsFrom offset s) =
        (line + count, offset + before.length) ∧
      (offset :: lineStartsFrom offset s).getD count 0 = offset + before.length := by
  -- On the starts that are left: one that does not come after the offset takes a line away.
  induction hstarts : lineStartsFrom offset s generalizing line offset n s with
  | nil =>
      have hnone : lineStartsFrom 0 s = [] := by
        rw [← List.map_eq_nil_iff (f := (· + offset)), ← lineStartsFrom_add, Nat.zero_add, hstarts]
      exact ⟨[], s, 0, rfl, ⟨by simp, by simp, by simp [hnone], fun _ => ⟨[], rfl, rfl⟩⟩, rfl,
        rfl⟩
  | cons next starts ih =>
      obtain ⟨body, ending, after, rfl, hbody, hending, hclean, hnext, hafter⟩ :=
        exists_ending_of_lineStartsFrom hstarts
      rw [locate]
      split
      · next hle =>
          obtain ⟨m, rfl⟩ : ∃ m, n = (body ++ ending).length + m :=
            ⟨n - (body ++ ending).length, by omega⟩
          obtain ⟨before, rest, count, rfl, hcut, hlocate, hstart⟩ :=
            ih (line + 1) next m after hafter.symm
          have hlength : next + before.length =
              offset + ((body ++ ending) ++ before).length := by
            rw [List.length_append, hnext, Nat.add_assoc]
          refine ⟨(body ++ ending) ++ before, rest, count + 1, by simp,
            hcut.cons hbody hending hclean, ?_, ?_⟩
          · rw [← Nat.add_assoc, ← hnext, hlocate, hlength, Nat.add_right_comm line]
            rfl
          · rw [List.getD_cons_succ, hstart, hlength]
      · next hlt =>
          refine ⟨[], body ++ (ending ++ after), 0, rfl, ⟨by simp, by simp, ?_,
            fun _ => ⟨[], rfl, rfl⟩⟩, rfl, rfl⟩
          rw [← Nat.zero_add offset, lineStartsFrom_add] at hstarts
          obtain ⟨first, _, hfirst, hshift, _⟩ := List.map_eq_cons_iff.mp hstarts
          rw [hfirst]
          simp only [List.head?_cons, Option.mem_some_iff, List.length_nil, forall_eq']
          omega

/-- A client sees the start of a line up to the first separator of its own. -/
theorem Text.le_length_firstLine_iff
    {n : Nat}
    (hn : n ≤ s.length)
    (h : ∀ next ∈ (lineStartsFrom 0 s).head?, n < next) :
    n ≤ (firstLine s).length ↔ ∀ c ∈ s.take (n - 1), c ∉ extraSeparators := by
  induction s using newline_induction generalizing n with
  | nil =>
      simp at hn
      simp [hn]
  | crlf s _ =>
      have hlt : n < 2 := h 2 rfl
      have hzero : n - 1 = 0 := by omega
      simp [hzero, firstLine, splitLines]
      omega
  | cons c s hclean ih =>
      rw [lineStartsFrom_cons 0 hclean] at h
      rw [firstLine_cons hclean]
      cases n with
      | zero => simp
      | succ n =>
          rw [List.length_cons, Nat.add_le_add_iff_right] at hn ⊢
          have hends : ¬ (c = '\r' ∨ c = '\n') := by
            intro hc
            rw [if_pos hc] at h
            have := h 1 rfl
            omega
          rw [if_neg hends, lineStartsFrom_add] at h
          have hnext : ∀ next ∈ (lineStartsFrom 0 s).head?, n < next := by
            intro next hnext
            have hlt := h (next + 1) (by simpa using hnext)
            omega
          have hiff := ih hn hnext
          cases n with
          | zero => simp
          | succ n =>
              have hsep : isLineSeparator c = true ↔ c ∈ extraSeparators := by
                rw [isLineSeparator_iff, or_iff_right hends]
              simp only [Nat.add_one_sub_one, List.take_succ_cons, List.forall_mem_cons] at hiff ⊢
              split
              · next hc =>
                  simp [hsep.mp hc]
              · next hc =>
                  rw [hiff, iff_and_self]
                  exact fun _ => mt hsep.mpr hc

end LineCut

namespace Encoding

variable (e : Encoding)

theorem units_pos (c : Char) :
    0 < e.units c := by
  cases e with
  | utf8 | utf16 =>
      simp only [units]
      split_ifs <;> omega
  | utf32 =>
      exact Nat.one_pos

theorem width_append (u v : List Char) :
    e.width (u ++ v) = e.width u + e.width v := by
  induction u with
  | nil =>
      simp [width]
  | cons c u ih =>
      rw [List.cons_append, width, width, ih, Nat.add_assoc]

/-- Every character counts. -/
theorem width_lt_width
    {u v : List Char}
    (h : u <+: v)
    (hlt : u.length < v.length) :
    e.width u < e.width v := by
  obtain ⟨w, rfl⟩ := h
  cases w with
  | nil =>
      simp at hlt
  | cons c w =>
      have hpos := e.units_pos c
      rw [width_append, width]
      omega

/-- What is left of a line is counted exactly if the line is long enough. -/
theorem width_take_eq_iff
    {line s : List Char} {n : Nat}
    (h : line <+: s)
    (hn : n ≤ s.length) :
    e.width (line.take n) = e.width (s.take n) ↔ n ≤ line.length := by
  obtain ⟨t, rfl⟩ := h
  by_cases hle : n ≤ line.length
  · simp [hle, List.take_append_of_le_length hle]
  · rw [not_le] at hle
    have hshort : line <+: (line ++ t).take n := by
      rw [List.take_append, List.take_of_length_le hle.le]
      exact List.prefix_append _ _
    have hlt := e.width_lt_width hshort (by rw [List.length_take]; omega)
    rw [List.take_of_length_le hle.le]
    constructor
    · intro heq
      omega
    · intro hn'
      omega

/-- A place in the line behind some lines; past the last line it is the start of that line. -/
theorem toClient_append (lines more : List (List Char)) (character : Nat) :
    e.toClient (lines ++ more) lines.length character =
      ⟨lines.length, e.width ((more.headD []).take character)⟩ := by
  rw [toClient, List.getElem?_append_right (Nat.le_refl _), Nat.sub_self]
  cases more with
  | nil =>
      simp [width]
  | cons line more =>
      rfl

end Encoding

namespace LineTable

/-- The offset at which the line of an offset starts. -/
def lineStart (t : LineTable) (offset : Nat) : Nat :=
  t.lineStarts.getD (t.positionAt offset).line.toNat 0

variable {text : List Char} {o : Nat}

/-- The position of an offset tells the lines before its line, and how far behind them it is. -/
theorem exists_lineCut_positionAt
    (ho : o ≤ text.length) :
    ∃ before rest count,
      text = before ++ rest ∧ LineCut o before rest count ∧
      (ofText text).positionAt o = ⟨count, (o - before.length : Nat)⟩ ∧
      (ofText text).lineStart o = before.length := by
  obtain ⟨before, rest, count, hcut, hlines, hlocate, hstart⟩ := exists_lineCut 0 0 o text
  have hclamp : (ofText text).clamp o = o := by
    simp [clamp, ofText, ho]
  simp only [Nat.zero_add] at hlocate hstart
  have hposition : (ofText text).positionAt o = ⟨count, (o - before.length : Nat)⟩ := by
    have hle := hlines.length_le
    simp only [positionAt, hclamp]
    rw [ofText, hlocate]
    simp only [Position.mk.injEq, true_and]
    omega
  refine ⟨before, rest, count, hcut, hlines, hposition, ?_⟩
  rw [lineStart, hposition]
  exact hstart

/-- The coordinates of a position fit on the wire if the length of the text does. -/
theorem exists_checked_positionAt
    (hlength : (text.length : Int) ≤ greatestCoordinate)
    (ho : o ≤ text.length) :
    ∃ before rest count,
      text = before ++ rest ∧ LineCut o before rest count ∧
      (ofText text).lineStart o = before.length ∧
      ((ofText text).positionAt o).line = count ∧
      ((ofText text).positionAt o).checked = .ok (count, o - before.length) := by
  obtain ⟨before, rest, count, hcut, hlines, hposition, hstart⟩ := exists_lineCut_positionAt ho
  refine ⟨before, rest, count, hcut, hlines, hstart, by rw [hposition], ?_⟩
  have hle := hlines.length_le
  have hcount := hlines.count_le
  have hfits : ∀ n : Nat, n ≤ text.length → Position.fits n = true := by
    intro n hn
    simp only [Position.fits, Bool.and_eq_true, decide_eq_true_eq]
    omega
  simp [hposition, Position.checked, hfits count (by omega), hfits (o - before.length) (by omega)]

end LineTable

/--
What a client is told about an offset, unless a separator of its own stands before the line: the
line, and the exact number of units before the offset just in case no such separator stands in the
line before the last character.
-/
def Encoding.Exact (e : Encoding) (text : List Char) (o : Nat) (p : ClientPosition) : Prop :=
  let lines := LineTable.ofText text
  (∀ c ∈ text.take (lines.lineStart o), c ∉ extraSeparators) →
    (p.line : Int) = (lines.positionAt o).line ∧
    (p.character = e.width (text.extract (lines.lineStart o) o) ↔
      ∀ c ∈ text.extract (lines.lineStart o) (o - 1), c ∉ extraSeparators)

theorem exists_exact
    {text : List Char} {o : Nat}
    (e : Encoding)
    (hlength : (text.length : Int) ≤ greatestCoordinate)
    (ho : o ≤ text.length) :
    ∃ place,
      ((LineTable.ofText text).positionAt o).checked = .ok place ∧
      e.Exact text o (e.toClient (splitLines text) place.1 place.2) := by
  obtain ⟨before, rest, count, rfl, hcut, hstart, hline, hchecked⟩ :=
    LineTable.exists_checked_positionAt hlength ho
  refine ⟨_, hchecked, ?_⟩
  simp only [Encoding.Exact, hstart, hline, List.take_left]
  intro hextra
  obtain ⟨lines, rfl, hsplit⟩ := hcut.splitLines_eq hextra
  have hle := hcut.length_le
  rw [List.length_append] at ho
  have hwithin : o - before.length ≤ rest.length := by omega
  have hnext : ∀ next ∈ (lineStartsFrom 0 rest).head?, o - before.length < next := by
    intro next hnext
    have hlt := hcut.unbroken next hnext
    omega
  rw [hsplit, e.toClient_append]
  refine ⟨rfl, ?_⟩
  simp only [List.extract_eq_take_drop, List.drop_left]
  rw [show o - 1 - before.length = o - before.length - 1 by omega,
    ← le_length_firstLine_iff hwithin hnext, ← e.width_take_eq_iff (prefix_firstLine rest) hwithin]
  rfl

/-- A place is told on a line that does not come after its own. -/
theorem Encoding.toClient_line_le
    (e : Encoding) (lines : List (List Char)) (line character : Nat) :
    (e.toClient lines line character).line ≤ line := by
  unfold toClient
  split
  · next hnone =>
      exact List.getElem?_eq_none_iff.mp hnone
  · exact Nat.le_refl _

/-- A position whose coordinates are accepted has these coordinates, and they fit. -/
theorem Position.eq_of_checked
    {p : Position} {line character : Nat}
    (h : p.checked = .ok (line, character)) :
    p = ⟨line, character⟩ ∧
    (line : Int) ≤ greatestCoordinate ∧ (character : Int) ≤ greatestCoordinate := by
  obtain ⟨l, c⟩ := p
  unfold checked at h
  split at h
  · cases h
  · next hline =>
      split at h
      · cases h
      · next hcharacter =>
          cases h
          simp only [fits, Bool.not_eq_true, Bool.not_eq_false', Bool.and_eq_true,
            decide_eq_true_eq] at hline hcharacter
          rw [Int.toNat_of_nonneg hline.1, Int.toNat_of_nonneg hcharacter.1]
          exact ⟨rfl, hline.2, hcharacter.2⟩

/-- On a line that fits, a place is told if its character fits too. -/
theorem ClientPosition.checked_eq
    {p : ClientPosition}
    (hline : (p.line : Int) ≤ greatestCoordinate) :
    p.checked =
      if (p.character : Int) ≤ greatestCoordinate then .ok p
      else .error (.character p.character) := by
  have hfits : Position.fits p.line = true := by
    simp [Position.fits, hline]
  rw [checked, Position.checked]
  by_cases hcharacter : (p.character : Int) ≤ greatestCoordinate
  · have hfits' : Position.fits p.character = true := by
      simp [Position.fits, hcharacter]
    simp [hfits, hfits', hcharacter, Except.map]
  · have hfits' : Position.fits p.character = false := by
      simp [Position.fits, hcharacter]
    simp [hfits, hfits', hcharacter, Except.map]

/--
What becomes of a diagnostic that is converted: it is sent if the characters of its two places fit,
and otherwise refused, the start first.
-/
structure SentIfFitting
    (e : Encoding) (text : List Char) (d : Diagnostic) (wire : WireDiagnostic) : Prop where
  sent_iff :
    toWire e text d = .ok wire ↔
      (wire.range.start.character : Int) ≤ greatestCoordinate ∧
      (wire.range.stop.character : Int) ≤ greatestCoordinate
  start_refused :
    greatestCoordinate < (wire.range.start.character : Int) →
      toWire e text d = .error (.character wire.range.start.character)
  stop_refused :
    (wire.range.start.character : Int) ≤ greatestCoordinate →
    greatestCoordinate < (wire.range.stop.character : Int) →
      toWire e text d = .error (.character wire.range.stop.character)

/-- A diagnostic is converted if its coordinates fit, and then place by place. -/
theorem exists_checked_of_toUnits
    {e : Encoding} {text : List Char} {d : Diagnostic} {wire : WireDiagnostic}
    (h : toUnits e text d = .ok wire) :
    ∃ start stop,
      d.range.start.checked = .ok start ∧ d.range.stop.checked = .ok stop ∧
      wire.range.start = e.toClient (splitLines text) start.1 start.2 ∧
      wire.range.stop = e.toClient (splitLines text) stop.1 stop.2 := by
  unfold toUnits at h
  cases hstart : d.range.start.checked with
  | error f =>
      rw [hstart] at h
      cases h
  | ok start =>
      cases hstop : d.range.stop.checked with
      | error f =>
          rw [hstart, hstop] at h
          cases h
      | ok stop =>
          rw [hstart, hstop] at h
          cases h
          exact ⟨start, stop, rfl, rfl, rfl, rfl⟩

/-- The lines of a diagnostic that is converted fit on the wire. -/
theorem lines_fit_of_toUnits
    {e : Encoding} {text : List Char} {d : Diagnostic} {wire : WireDiagnostic}
    (h : toUnits e text d = .ok wire) :
    (wire.range.start.line : Int) ≤ greatestCoordinate ∧
    (wire.range.stop.line : Int) ≤ greatestCoordinate := by
  obtain ⟨start, stop, hstart, hstop, hfirst, hlast⟩ := exists_checked_of_toUnits h
  obtain ⟨_, hline, _⟩ := Position.eq_of_checked hstart
  obtain ⟨_, hline', _⟩ := Position.eq_of_checked hstop
  have hle := e.toClient_line_le (splitLines text) start.1 start.2
  have hle' := e.toClient_line_le (splitLines text) stop.1 stop.2
  rw [hfirst, hlast]
  omega

/-- What is converted is sent if the number of units fits on the wire. -/
theorem sentIfFitting_of_toUnits
    {e : Encoding} {text : List Char} {d : Diagnostic} {wire : WireDiagnostic}
    (h : toUnits e text d = .ok wire) :
    SentIfFitting e text d wire := by
  obtain ⟨hline, hline'⟩ := lines_fit_of_toUnits h
  have hwire : toWire e text d =
      if (wire.range.start.character : Int) ≤ greatestCoordinate then
        if (wire.range.stop.character : Int) ≤ greatestCoordinate then .ok wire
        else .error (.character wire.range.stop.character)
      else .error (.character wire.range.start.character) := by
    simp only [toWire, h, bind, Except.bind, ClientPosition.checked_eq hline,
      ClientPosition.checked_eq hline']
    by_cases hfits : (wire.range.start.character : Int) ≤ greatestCoordinate
    · by_cases hfits' : (wire.range.stop.character : Int) ≤ greatestCoordinate
      · simp only [if_pos hfits, if_pos hfits']
        rfl
      · simp only [if_pos hfits, if_neg hfits']
    · simp only [if_neg hfits]
  constructor
  · rw [hwire]
    by_cases hfits : (wire.range.start.character : Int) ≤ greatestCoordinate
    · by_cases hfits' : (wire.range.stop.character : Int) ≤ greatestCoordinate
      · simp [hfits, hfits']
      · simp [hfits, hfits']
    · simp [hfits]
  · intro hgreat
    rw [hwire, if_neg (not_le.mpr hgreat)]
  · intro hfits hgreat
    rw [hwire, if_pos hfits, if_neg (not_le.mpr hgreat)]

/--
**Positions on the wire are exact up to the separators of the client.**  A diagnostic between two
offsets of a text whose length fits on the wire is converted, whatever the client counts in.  If no
separator of the client alone stands before the line of an offset, the client is told that line;
and the character is the number of units between the start of the line and the offset exactly if
no such separator stands there before the last character.  What is converted is sent as it is,
unless there are so many units that their number does not fit on the wire.
-/
theorem toWire_exact_iff
    {text : List Char} {d : Diagnostic} {o o' : Nat}
    (e : Encoding)
    (hlength : (text.length : Int) ≤ greatestCoordinate)
    (ho : o ≤ text.length)
    (ho' : o' ≤ text.length)
    (hrange : d.range =
      ⟨(LineTable.ofText text).positionAt o, (LineTable.ofText text).positionAt o'⟩) :
    ∃ wire,
      toUnits e text d = .ok wire ∧
      e.Exact text o wire.range.start ∧ e.Exact text o' wire.range.stop ∧
      SentIfFitting e text d wire := by
  obtain ⟨start, hstart, hexact⟩ := exists_exact e hlength ho
  obtain ⟨stop, hstop, hexact'⟩ := exists_exact e hlength ho'
  have hunits : toUnits e text d =
      .ok ⟨⟨e.toClient (splitLines text) start.1 start.2,
        e.toClient (splitLines text) stop.1 stop.2⟩, d.severity, d.message, d.ruleId⟩ := by
    rw [toUnits, hrange]
    simp only [hstart, hstop]
    rfl
  exact ⟨_, hunits, hexact, hexact', sentIfFitting_of_toUnits hunits⟩

/-- An emoji and a form feed, and what stands behind them. -/
def brokenLine : List Char :=
  "a\n😀\x0cxy".toList

/-- Up to the form feed the units are counted exactly, behind the next character they are not. -/
theorem toWire_exact_iff_formFeed :
    ∃ wire,
      toWire .utf16 brokenLine ⟨"", "", ⟨⟨1, 2⟩, ⟨1, 3⟩⟩, .hint⟩ = .ok wire ∧
      wire.range.start.character = 3 ∧ wire.range.stop.character ≠ 4 := by
  obtain ⟨wire, hunits, hstart, hstop, hsent⟩ :=
    @toWire_exact_iff brokenLine ⟨"", "", ⟨⟨1, 2⟩, ⟨1, 3⟩⟩, .hint⟩ 4 5 .utf16
      (by decide) (by decide) (by decide) (by decide)
  have hbefore : ∀ c ∈ brokenLine.take 2, c ∉ extraSeparators := by
    simp [brokenLine, extraSeparators]
  have hemoji : ∀ c ∈ ['😀'], c ∉ extraSeparators := by
    simp [extraSeparators]
  obtain ⟨_, hexact⟩ := hstart hbefore
  obtain ⟨_, hinexact⟩ := hstop hbefore
  have hwire : wire.range.start.character ≤ 3 ∧ wire.range.stop.character ≤ 3 := by
    cases hunits
    decide +kernel
  refine ⟨wire, hsent.sent_iff.mpr ?_, hexact.mpr hemoji, ?_⟩
  · unfold greatestCoordinate
    omega
  intro hfour
  have hfeed : '\x0c' ∉ extraSeparators := hinexact.mp hfour _ (by decide)
  exact absurd hfeed (by decide)

end NuspecLint
