import NuspecLint.Position
import NuspecLint.Proofs.Text.Newline

/-!
# Positions of offsets

The position that the line table gives to an offset, counted along the text before it.

**Results.**
* `LineTable.positionAt_append`: at a clean cut, the position is the line and the column that
  reading the text before the cut leads to.
* `lineColumn_normalizeNewlines`: that line and column do not depend on how lines end.
* `LineTable.offsetAt_positionAt` and `LineTable.offsetAt_rangeOf`: offsets come back from their
  positions, and the ends of a span from its range.
-/

namespace NuspecLint

open Text

/-- The line and the column that reading a text leads to, from a given line and column. -/
def lineColumn (line column : Nat) : List Char → Nat × Nat
  | [] => (line, column)
  | '\r' :: '\n' :: s => lineColumn (line + 1) 0 s
  | c :: s =>
      if c = '\r' ∨ c = '\n' then lineColumn (line + 1) 0 s
      else lineColumn line (column + 1) s

section LineColumn

variable {line column : Nat} {s u v : List Char}

theorem lineColumn_cons
    {c : Char}
    (h : CleanCut [c] s) :
    lineColumn line column (c :: s) =
      if c = '\r' ∨ c = '\n' then lineColumn (line + 1) 0 s
      else lineColumn line (column + 1) s := by
  rw [lineColumn]
  rintro t rfl rfl
  exact h rfl rfl

theorem lineColumn_normalizeNewlines (line column : Nat) (s : List Char) :
    lineColumn line column (normalizeNewlines s) = lineColumn line column s := by
  induction s using newline_induction generalizing line column with
  | nil =>
      simp
  | crlf s ih =>
      rw [normalizeNewlines_crlf, lineColumn_cons (cleanCut_singleton (by decide)), lineColumn, ih]
      simp
  | cons c s hclean ih =>
      rw [normalizeNewlines_cons hclean,
        lineColumn_cons (cleanCut_singleton (lineFeed_ne_return c)), lineColumn_cons hclean,
        ih, ih]
      unfold lineFeed
      split
      · next hc =>
          simp [hc]
      · rfl

theorem lineStartsFrom_cons
    {c : Char} (offset : Nat)
    (h : CleanCut [c] s) :
    lineStartsFrom offset (c :: s) =
      if c = '\r' ∨ c = '\n' then (offset + 1) :: lineStartsFrom (offset + 1) s
      else lineStartsFrom (offset + 1) s := by
  rw [lineStartsFrom]
  rintro t rfl rfl
  exact h rfl rfl

/-- Lines start behind the place from which they are looked for. -/
theorem lt_of_mem_lineStartsFrom
    {offset start : Nat}
    (h : start ∈ lineStartsFrom offset s) :
    offset < start := by
  induction s using newline_induction generalizing offset with
  | nil =>
      simp [lineStartsFrom] at h
  | crlf s ih =>
      simp only [lineStartsFrom, List.mem_cons] at h
      rcases h with rfl | h
      · omega
      · have hlt := ih h
        omega
  | cons c s hclean ih =>
      rw [lineStartsFrom_cons offset hclean] at h
      split at h
      · rcases List.mem_cons.mp h with rfl | h
        · omega
        · have hlt := ih h
          omega
      · have hlt := ih h
        omega

/-- The lines that start behind an offset do not matter for it. -/
theorem locate_lineStartsFrom (offset line start : Nat) (s : List Char) :
    locate offset line start (lineStartsFrom offset s) = (line, start) := by
  cases hstarts : lineStartsFrom offset s with
  | nil =>
      rfl
  | cons next rest =>
      have hlt : offset < next := lt_of_mem_lineStartsFrom (s := s) (by simp [hstarts])
      rw [locate, if_neg (by omega)]

/-- The last line that starts at a clean cut or before it is the one that reading leads to. -/
theorem locate_append
    {offset start : Nat}
    (h : CleanCut u v)
    (hstart : start + column = offset) :
    ∃ last,
      locate (offset + u.length) line start (lineStartsFrom offset (u ++ v)) =
        ((lineColumn line column u).1, last) ∧
      last + (lineColumn line column u).2 = offset + u.length := by
  induction u using newline_induction generalizing offset line column start with
  | nil =>
      exact ⟨start, locate_lineStartsFrom offset line start v, hstart⟩
  | crlf u ih =>
      obtain ⟨last, hlocate, hlast⟩ :=
        @ih (line + 1) 0 (offset + 2) (offset + 2) h.tail.tail rfl
      refine ⟨last, ?_, ?_⟩
      · rw [List.cons_append, List.cons_append, lineStartsFrom, lineColumn, ← hlocate, locate,
          if_pos (by simp), List.length_cons, List.length_cons]
        congr 1
        omega
      · rw [lineColumn, hlast, List.length_cons, List.length_cons]
        omega
  | cons c u hclean ih =>
      rw [List.cons_append, lineStartsFrom_cons offset (hclean.append_right h),
        lineColumn_cons hclean]
      split
      · obtain ⟨last, hlocate, hlast⟩ :=
          @ih (line + 1) 0 (offset + 1) (offset + 1) h.tail rfl
        refine ⟨last, ?_, ?_⟩
        · rw [← hlocate, locate, if_pos (by simp), List.length_cons]
          congr 1
          omega
        · rw [hlast, List.length_cons]
          omega
      · obtain ⟨last, hlocate, hlast⟩ :=
          @ih line (column + 1) (offset + 1) start h.tail (by omega)
        refine ⟨last, ?_, ?_⟩
        · rw [← hlocate, List.length_cons]
          congr 1
          omega
        · rw [hlast, List.length_cons]
          omega

end LineColumn

/--
The look-up of an offset finds a start that the offset has come to, and the next start, if there is
one, lies behind the offset.
-/
theorem locate_eq
    {offset start : Nat} (line : Nat) (starts : List Nat)
    (hstart : start ≤ offset) :
    ∃ k last,
      locate offset line start starts = (line + k, last) ∧
      (start :: starts)[k]? = some last ∧ last ≤ offset ∧
      ∀ next, starts[k]? = some next → offset < next := by
  induction starts generalizing line start with
  | nil =>
      exact ⟨0, start, rfl, rfl, hstart, by simp⟩
  | cons next rest ih =>
      rw [locate]
      split
      · next hnext =>
          obtain ⟨k, last, hlocate, hlast, hle, hbehind⟩ := ih (line + 1) hnext
          refine ⟨k + 1, last, ?_, hlast, hle, hbehind⟩
          rw [hlocate, Nat.add_right_comm, Nat.add_assoc]
      · next hnext =>
          refine ⟨0, start, rfl, rfl, hstart, ?_⟩
          intro other hother
          obtain rfl : next = other := by
            simpa using hother
          omega

namespace LineTable

/-- At a clean cut, a position is where reading the text before it leads to. -/
theorem positionAt_append
    {u v : List Char}
    (h : CleanCut u v) :
    (ofText (u ++ v)).positionAt u.length =
      ⟨(lineColumn 0 0 u).1, (lineColumn 0 0 u).2⟩ := by
  obtain ⟨last, hlocate, hlast⟩ := @locate_append 0 0 u v 0 0 h rfl
  have hclamp : (ofText (u ++ v)).clamp u.length = u.length := by
    simp [ofText, clamp]
  rw [Nat.zero_add] at hlocate hlast
  simp only [positionAt, hclamp]
  rw [ofText, hlocate]
  simp only [Position.mk.injEq, true_and]
  omega

theorem rangeOf_start (t : LineTable) (start stop : Int) :
    (t.rangeOf start stop).start = t.positionAt start := by
  have hclamp : t.clamp (t.clamp start) = t.clamp start := by
    unfold clamp
    omega
  simp only [rangeOf, positionAt, hclamp]

/-- The range of a whole text. -/
theorem rangeOf_whole (text : List Char) :
    (ofText text).rangeOf 0 text.length =
      ⟨(ofText text).positionAt 0, (ofText text).positionAt text.length⟩ := by
  have hstart : (ofText text).clamp 0 = 0 := by
    simp [clamp]
  have hstop : (ofText text).clamp text.length = text.length := by
    simp [ofText, clamp]
  simp only [rangeOf, hstart, hstop, Nat.cast_zero, Nat.max_eq_right (Nat.zero_le _)]

/-- An offset comes back from its position, after clamping. -/
theorem offsetAt_positionAt (t : LineTable) (offset : Int) :
    t.offsetAt (t.positionAt offset) = t.clamp offset := by
  have hlength : t.clamp offset ≤ t.length := Nat.min_le_right _ _
  simp only [positionAt]
  generalize t.clamp offset = o at hlength ⊢
  obtain ⟨k, last, hlocate, hlast, hle, hbehind⟩ :=
    locate_eq 0 t.laterStarts (Nat.zero_le o)
  have hk : k ≤ t.laterStarts.length := by
    obtain ⟨hlt, _⟩ := List.getElem?_eq_some_iff.mp hlast
    exact Nat.le_of_lt_succ hlt
  have hstop : o ≤ t.lineStarts.getD (k + 1) t.length := by
    rw [lineStarts, List.getD_cons_succ, List.getD_eq_getElem?_getD]
    cases hnext : t.laterStarts[k]? with
    | none =>
        exact hlength
    | some next =>
        exact Nat.le_of_lt (hbehind next hnext)
  have hstart : t.lineStarts.getD k 0 = last := by
    rw [lineStarts, List.getD_eq_getElem?_getD, hlast, Option.getD_some]
  rw [hlocate, Nat.zero_add]
  simp only [offsetAt, Int.toNat_natCast, Nat.min_eq_left hk, hstart]
  omega

/-- The ends of a span that lies in the text come back from its range. -/
theorem offsetAt_rangeOf
    {t : LineTable} {start stop : Nat}
    (hle : start ≤ stop)
    (hlength : stop ≤ t.length) :
    t.offsetAt (t.rangeOf start stop).start = start ∧
    t.offsetAt (t.rangeOf start stop).stop = stop := by
  have hclamp : ∀ o : Nat, o ≤ t.length → t.clamp o = o := by
    intro o ho
    simp [clamp, ho]
  simp only [rangeOf, offsetAt_positionAt, hclamp start (hle.trans hlength), hclamp stop hlength,
    Nat.max_eq_right hle, and_self]

end LineTable

end NuspecLint
