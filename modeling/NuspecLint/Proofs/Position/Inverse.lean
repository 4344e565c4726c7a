import NuspecLint.Proofs.Position.Lines
import Mathlib.Data.Prod.Lex
import Mathlib.Order.Monotone.Defs

/-!
# Offsets and positions are inverse

The way from offsets to positions and the way back, for arguments inside and outside the text.

**Order.**  Positions are compared by line, and by character within a line.

**Condition.**  A position stands for a place of the text if its line is in the table and its
character does not reach the next line or, on the last line, does not pass the end of the text.

**Results.**
* `LineTable.monotoneOn_offsetAt`: of two positions, the later has no smaller offset.
* `LineTable.standsFor_positionAt` and `LineTable.StandsFor.positionAt_offsetAt`: the positions that
  stand for a place are those that come back from their offsets.
* `LineTable.position_offset_inverse`: both ways, their orders and the ranges between two offsets.
-/

namespace NuspecLint

namespace Position

/-- The line and the character, in the order in which they are compared. -/
def key (p : Position) : Int ×ₗ Int :=
  toLex (p.line, p.character)

theorem key_injective :
    Function.Injective key := by
  rintro ⟨line, character⟩ ⟨line', character'⟩ h
  obtain ⟨rfl, rfl⟩ := Prod.mk.inj (toLex_inj.mp h)
  rfl

instance : LinearOrder Position :=
  LinearOrder.lift' key key_injective

theorem lt_iff
    {p q : Position} :
    p < q ↔ p.line < q.line ∨ (p.line = q.line ∧ p.character < q.character) :=
  Prod.Lex.toLex_lt_toLex

theorem le_iff
    {p q : Position} :
    p ≤ q ↔ p.line < q.line ∨ (p.line = q.line ∧ p.character ≤ q.character) :=
  Prod.Lex.toLex_le_toLex

end Position

namespace LineTable

variable {t : LineTable} {p q : Position}

/-- The offset at which a line of the table starts. -/
def startOfLine (t : LineTable) (line : Nat) : Nat :=
  t.lineStarts.getD line 0

/-- The offset at which the line after a line of the table starts; the last line ends the text. -/
def stopOfLine (t : LineTable) (line : Nat) : Nat :=
  t.lineStarts.getD (line + 1) t.length

section Lines

theorem startOfLine_of_getElem?
    {line start : Nat}
    (h : t.lineStarts[line]? = some start) :
    t.startOfLine line = start := by
  rw [startOfLine, List.getD_eq_getElem?_getD, h, Option.getD_some]

theorem stopOfLine_of_getElem?
    {line next : Nat}
    (h : t.lineStarts[line + 1]? = some next) :
    t.stopOfLine line = next := by
  rw [stopOfLine, List.getD_eq_getElem?_getD, h, Option.getD_some]

theorem stopOfLine_of_last
    {line : Nat}
    (h : t.lineStarts[line + 1]? = none) :
    t.stopOfLine line = t.length := by
  rw [stopOfLine, List.getD_eq_getElem?_getD, h, Option.getD_none]

theorem Ordered.stopOfLine_le_length
    (ht : t.Ordered)
    (line : Nat) :
    t.stopOfLine line ≤ t.length := by
  cases hnext : t.lineStarts[line + 1]? with
  | none =>
      exact (stopOfLine_of_last hnext).le
  | some next =>
      rw [stopOfLine_of_getElem? hnext]
      exact ht.le_length next (List.mem_of_getElem? hnext)

theorem Ordered.startOfLine_lt
    {line line' : Nat}
    (ht : t.Ordered)
    (hlt : line < line')
    (hline : line' < t.lineStarts.length) :
    t.startOfLine line < t.startOfLine line' := by
  have hsorted := List.pairwise_iff_getElem.mp ht.sorted line line' (hlt.trans hline) hline hlt
  rwa [← startOfLine_of_getElem? (List.getElem?_eq_getElem (hlt.trans hline)),
    ← startOfLine_of_getElem? (List.getElem?_eq_getElem hline)] at hsorted

/-- A line does not end behind the start of a later one. -/
theorem Ordered.stopOfLine_le_startOfLine
    {line line' : Nat}
    (ht : t.Ordered)
    (hlt : line < line')
    (hline : line' < t.lineStarts.length) :
    t.stopOfLine line ≤ t.startOfLine line' := by
  have hstop : t.stopOfLine line = t.startOfLine (line + 1) := by
    have hnext := List.getElem?_eq_getElem (Nat.lt_of_le_of_lt hlt hline)
    rw [stopOfLine_of_getElem? hnext, startOfLine_of_getElem? hnext]
  rw [hstop]
  rcases Nat.lt_or_eq_of_le hlt with hlt | heq
  · exact (ht.startOfLine_lt hlt hline).le
  · exact (congrArg t.startOfLine heq).le

theorem Ordered.startOfLine_le_stopOfLine
    {line : Nat}
    (ht : t.Ordered)
    (hline : line < t.lineStarts.length) :
    t.startOfLine line ≤ t.stopOfLine line := by
  have hstart := List.getElem?_eq_getElem hline
  cases hnext : t.lineStarts[line + 1]? with
  | none =>
      rw [stopOfLine_of_last hnext, startOfLine_of_getElem? hstart]
      exact ht.le_length _ (List.mem_of_getElem? hstart)
  | some next =>
      obtain ⟨hlt, _⟩ := List.getElem?_eq_some_iff.mp hnext
      rw [stopOfLine_of_getElem? hnext, ← startOfLine_of_getElem? hnext]
      exact (ht.startOfLine_lt (Nat.lt_succ_self line) hlt).le

end Lines

section Offsets

/-- The line of the position is in the table. -/
def HasLine (t : LineTable) (p : Position) : Prop :=
  0 ≤ p.line ∧ p.line < t.lineStarts.length

theorem HasLine.toNat_lt
    (h : t.HasLine p) :
    p.line.toNat < t.lineStarts.length := by
  obtain ⟨hnonneg, hlt⟩ := h
  omega

/-- On a line of the table, only the character is clamped. -/
theorem HasLine.offsetAt_eq
    (h : t.HasLine p) :
    (t.offsetAt p : Int) =
      max (t.startOfLine p.line.toNat : Int)
        (min (t.startOfLine p.line.toNat + p.character) (t.stopOfLine p.line.toNat)) := by
  have hline : min p.line.toNat t.laterStarts.length = p.line.toNat := by
    have hlt := h.toNat_lt
    rw [lineStarts, List.length_cons] at hlt
    omega
  simp only [offsetAt, hline]
  rw [← startOfLine, ← stopOfLine]
  omega

theorem HasLine.startOfLine_le_offsetAt
    (h : t.HasLine p) :
    t.startOfLine p.line.toNat ≤ t.offsetAt p := by
  have hoffset := h.offsetAt_eq
  omega

theorem HasLine.offsetAt_le_stopOfLine
    (h : t.HasLine p)
    (ht : t.Ordered) :
    t.offsetAt p ≤ t.stopOfLine p.line.toNat := by
  have hoffset := h.offsetAt_eq
  have hle := ht.startOfLine_le_stopOfLine h.toNat_lt
  omega

/-- Of two positions on lines of the table, the later has no smaller offset. -/
theorem monotoneOn_offsetAt
    (ht : t.Ordered) :
    MonotoneOn t.offsetAt {p | t.HasLine p} := by
  intro p hp q hq hpq
  rcases Position.le_iff.mp hpq with hline | ⟨hline, hcharacter⟩
  · have hlt : p.line.toNat < q.line.toNat := by
      obtain ⟨hnonneg, _⟩ := hp
      omega
    calc
      t.offsetAt p ≤ t.stopOfLine p.line.toNat := hp.offsetAt_le_stopOfLine ht
      _ ≤ t.startOfLine q.line.toNat := ht.stopOfLine_le_startOfLine hlt hq.toNat_lt
      _ ≤ t.offsetAt q := hq.startOfLine_le_offsetAt
  · have hoffset := hp.offsetAt_eq
    have hoffset' := hq.offsetAt_eq
    rw [hline] at hoffset
    omega

end Offsets

section Places

/-- The position stands for a place of the text. -/
structure StandsFor (t : LineTable) (p : Position) : Prop where
  hasLine : t.HasLine p
  character_nonneg : 0 ≤ p.character
  lt_next :
    ∀ next, t.lineStarts[p.line.toNat + 1]? = some next →
      t.startOfLine p.line.toNat + p.character < next
  le_length :
    t.lineStarts[p.line.toNat + 1]? = none →
      t.startOfLine p.line.toNat + p.character ≤ t.length

/-- The position of an offset stands for a place. -/
theorem standsFor_positionAt (t : LineTable) (o : Int) :
    t.StandsFor (t.positionAt o) := by
  have hlength : t.clamp o ≤ t.length := Nat.min_le_right _ _
  obtain ⟨k, last, hlocate, hlast, hle, hbehind⟩ :=
    locate_eq 0 t.laterStarts (Nat.zero_le (t.clamp o))
  have hposition : t.positionAt o = ⟨k, t.clamp o - last⟩ := by
    rw [positionAt, hlocate, Nat.zero_add]
  have hstart : t.startOfLine k = last := startOfLine_of_getElem? hlast
  obtain ⟨hk, _⟩ := List.getElem?_eq_some_iff.mp hlast
  rw [hposition]
  refine ⟨⟨Int.natCast_nonneg k, Int.ofNat_lt.mpr hk⟩, by simp only; omega, ?_, ?_⟩
  · intro next hnext
    have hlt := hbehind next hnext
    simp only [Int.toNat_natCast, hstart]
    omega
  · intro _
    simp only [Int.toNat_natCast, hstart]
    omega

namespace StandsFor

/-- Nothing is clamped in a position that stands for a place. -/
theorem offsetAt_eq
    (h : t.StandsFor p) :
    (t.offsetAt p : Int) = t.startOfLine p.line.toNat + p.character := by
  have hoffset := h.hasLine.offsetAt_eq
  have hnonneg := h.character_nonneg
  have hstop : t.startOfLine p.line.toNat + p.character ≤ t.stopOfLine p.line.toNat := by
    cases hnext : t.lineStarts[p.line.toNat + 1]? with
    | none =>
        rw [stopOfLine_of_last hnext]
        exact h.le_length hnext
    | some next =>
        rw [stopOfLine_of_getElem? hnext]
        exact (h.lt_next next hnext).le
  omega

theorem offsetAt_lt_offsetAt
    (hp : t.StandsFor p)
    (hq : t.StandsFor q)
    (ht : t.Ordered)
    (hlt : p < q) :
    t.offsetAt p < t.offsetAt q := by
  have hoffset := hp.offsetAt_eq
  have hoffset' := hq.offsetAt_eq
  rcases Position.lt_iff.mp hlt with hline | ⟨hline, hcharacter⟩
  · have hnat : p.line.toNat < q.line.toNat := by
      obtain ⟨hnonneg, _⟩ := hp.hasLine
      omega
    have hnext := List.getElem?_eq_getElem (Nat.lt_of_le_of_lt hnat hq.hasLine.toNat_lt)
    have hbefore := hp.lt_next _ hnext
    have hstop := ht.stopOfLine_le_startOfLine hnat hq.hasLine.toNat_lt
    rw [stopOfLine_of_getElem? hnext] at hstop
    have hafter := hq.hasLine.startOfLine_le_offsetAt
    omega
  · rw [hline] at hoffset
    omega

/-- A position that stands for a place comes back from its offset. -/
theorem positionAt_offsetAt
    (h : t.StandsFor p)
    (ht : t.Ordered) :
    t.positionAt (t.offsetAt p) = p := by
  have hback := standsFor_positionAt t (t.offsetAt p)
  have hsame : t.offsetAt (t.positionAt (t.offsetAt p)) = t.offsetAt p := by
    have hle := (h.hasLine.offsetAt_le_stopOfLine ht).trans (ht.stopOfLine_le_length _)
    rw [LineTable.offsetAt_positionAt, clamp, Int.toNat_natCast, Nat.min_eq_left hle]
  rcases lt_trichotomy (t.positionAt (t.offsetAt p)) p with hlt | heq | hgt
  · exact absurd hsame (hback.offsetAt_lt_offsetAt h ht hlt).ne
  · exact heq
  · exact absurd hsame (h.offsetAt_lt_offsetAt hback ht hgt).ne'

end StandsFor

end Places

/-- A later offset of the text has a later position. -/
theorem strictMonoOn_positionAt
    (ht : t.Ordered) :
    StrictMonoOn t.positionAt (Set.Icc 0 (t.length : Int)) := by
  intro a ha b hb hab
  by_contra hnot
  have hmono := monotoneOn_offsetAt ht (standsFor_positionAt t b).hasLine
    (standsFor_positionAt t a).hasLine (not_lt.mp hnot)
  rw [offsetAt_positionAt, offsetAt_positionAt, clamp, clamp] at hmono
  obtain ⟨ha, ha'⟩ := ha
  obtain ⟨hb, hb'⟩ := hb
  omega

theorem positionAt_le_positionAt
    {a b : Nat}
    (ht : t.Ordered)
    (hab : a ≤ b)
    (hb : b ≤ t.length) :
    t.positionAt a ≤ t.positionAt b := by
  have ha' : (a : Int) ∈ Set.Icc 0 (t.length : Int) := ⟨by omega, by omega⟩
  have hb' : (b : Int) ∈ Set.Icc 0 (t.length : Int) := ⟨by omega, by omega⟩
  exact (strictMonoOn_positionAt ht).monotoneOn ha' hb' (Int.ofNat_le.mpr hab)

/--
**Offsets and positions are inverse.**  An integer comes back from its position as the nearest
offset of the text, and a position comes back from its offset exactly if it stands for a place.
Both ways keep the order, and a range starts and ends at the offsets that it is made from, with its
end moved up to its start where needed.
-/
theorem position_offset_inverse (text : List Char) :
    (∀ o : Int,
      ((ofText text).offsetAt ((ofText text).positionAt o) : Int) = max 0 (min o text.length)) ∧
    (∀ p,
      (ofText text).positionAt ((ofText text).offsetAt p) = p ↔ (ofText text).StandsFor p) ∧
    StrictMonoOn (ofText text).positionAt (Set.Icc 0 (text.length : Int)) ∧
    MonotoneOn (ofText text).offsetAt {p | (ofText text).HasLine p} ∧
    ∀ a b : Int,
      ((ofText text).rangeOf a b).start ≤ ((ofText text).rangeOf a b).stop ∧
      ((ofText text).offsetAt ((ofText text).rangeOf a b).start : Int) =
        max 0 (min a text.length) ∧
      ((ofText text).offsetAt ((ofText text).rangeOf a b).stop : Int) =
        max (max 0 (min a text.length)) (max 0 (min b text.length)) := by
  have ht := ordered_ofText text
  refine ⟨?_, ?_, strictMonoOn_positionAt ht, monotoneOn_offsetAt ht, ?_⟩
  · intro o
    rw [offsetAt_positionAt, cast_clamp]
    rfl
  · intro p
    constructor
    · intro h
      rw [← h]
      exact standsFor_positionAt _ _
    · intro h
      exact h.positionAt_offsetAt ht
  · intro a b
    have hclamp : ∀ o : Int, ((ofText text).clamp o : Int) = max 0 (min o text.length) :=
      fun o => cast_clamp _ o
    have hfirst := hclamp a
    have hsecond := hclamp b
    have hlast : max ((ofText text).clamp a) ((ofText text).clamp b) ≤ (ofText text).length :=
      max_le (Nat.min_le_right _ _) (Nat.min_le_right _ _)
    have hfixed := hclamp (max ((ofText text).clamp a) ((ofText text).clamp b) : Nat)
    refine ⟨positionAt_le_positionAt ht (le_max_left _ _) hlast, ?_, ?_⟩
    · rw [rangeOf_start, offsetAt_positionAt, cast_clamp]
      rfl
    · rw [rangeOf, offsetAt_positionAt]
      omega

end LineTable

end NuspecLint
