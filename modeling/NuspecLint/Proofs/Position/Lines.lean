import NuspecLint.Proofs.Position
import Mathlib.Order.Bounds.Basic

/-!
# Where lines start

The line table of a text is built by cutting the text at its line ends, from left to right, and an
offset is looked up in it entry by entry.  Here both are told without reading: whether a line starts
at an offset is seen from the two characters around it, and the line of an offset is a number of
entries.

**Condition.**  A line ends with a line feed, or with a carriage return that no line feed follows.

**Results.**
* `mem_lineStartsFrom_iff`: lines start behind the characters with which lines end.
* `LineTable.ordered_ofText`: the entries of a table increase, and none lies behind the text.
* `locate_fst` and `isGreatest_locate_snd`: the look-up counts entries and comes to the greatest.
* `LineTable.lineStarts_by_context`: the table of every text, and the position of every integer.
-/

namespace NuspecLint

open Text

/-- A line of the text ends with the character at the offset `k`. -/
def EndsLine (text : List Char) (k : Nat) : Prop :=
  text[k]? = some '\n' ∨ (text[k]? = some '\r' ∧ text[k + 1]? ≠ some '\n')

section LineStarts

variable {s : List Char}

/-- At a clean cut, the character before it decides alone. -/
theorem endsLine_cons_zero
    {c : Char}
    (h : CleanCut [c] s) :
    EndsLine (c :: s) 0 ↔ c = '\r' ∨ c = '\n' := by
  have hnext : c = '\r' → s[0]? ≠ some '\n' := by
    rintro rfl
    rw [← List.head?_eq_getElem?]
    exact h rfl
  simp only [EndsLine, List.getElem?_cons_zero, List.getElem?_cons_succ, Option.some.injEq]
  tauto

/-- Lines start behind the characters with which lines end. -/
theorem mem_lineStartsFrom_iff
    {offset start : Nat} :
    start ∈ lineStartsFrom offset s ↔ ∃ k, start = offset + k + 1 ∧ EndsLine s k := by
  induction s using newline_induction generalizing offset with
  | nil =>
      simp [lineStartsFrom, EndsLine]
  | crlf s ih =>
      rw [lineStartsFrom, List.mem_cons, ih]
      constructor
      · rintro (rfl | ⟨k, rfl, hk⟩)
        · exact ⟨1, rfl, Or.inl rfl⟩
        · exact ⟨k + 2, by omega, hk⟩
      · rintro ⟨k, rfl, hk⟩
        rcases k with _ | _ | k
        · simp [EndsLine] at hk
        · exact Or.inl rfl
        · exact Or.inr ⟨k, by omega, hk⟩
  | cons c s hclean ih =>
      have hsplit : start ∈ lineStartsFrom offset (c :: s) ↔
          (start = offset + 1 ∧ (c = '\r' ∨ c = '\n')) ∨
            start ∈ lineStartsFrom (offset + 1) s := by
        rw [lineStartsFrom_cons offset hclean]
        split
        · next hc =>
            simp [hc]
        · next hc =>
            simp [hc]
      rw [hsplit, ih]
      constructor
      · rintro (⟨rfl, hc⟩ | ⟨k, rfl, hk⟩)
        · exact ⟨0, rfl, (endsLine_cons_zero hclean).mpr hc⟩
        · exact ⟨k + 1, by omega, hk⟩
      · rintro ⟨k, rfl, hk⟩
        cases k with
        | zero =>
            exact Or.inl ⟨rfl, (endsLine_cons_zero hclean).mp hk⟩
        | succ k =>
            exact Or.inr ⟨k, by omega, hk⟩

theorem pairwise_lineStartsFrom (offset : Nat) (s : List Char) :
    (lineStartsFrom offset s).Pairwise (· < ·) := by
  induction s using newline_induction generalizing offset with
  | nil =>
      simp [lineStartsFrom]
  | crlf s ih =>
      rw [lineStartsFrom, List.pairwise_cons]
      exact ⟨fun start hstart => lt_of_mem_lineStartsFrom hstart, ih (offset + 2)⟩
  | cons c s hclean ih =>
      rw [lineStartsFrom_cons offset hclean]
      split
      · rw [List.pairwise_cons]
        exact ⟨fun start hstart => lt_of_mem_lineStartsFrom hstart, ih (offset + 1)⟩
      · exact ih (offset + 1)

end LineStarts

section LookUp

variable {offset start : Nat} {starts : List Nat}

/-- The look-up counts the entries that the offset has come to. -/
theorem locate_fst
    (line : Nat)
    (hsorted : starts.Pairwise (· < ·)) :
    (locate offset line start starts).1 = line + starts.countP (· ≤ offset) := by
  induction starts generalizing line start with
  | nil =>
      rfl
  | cons next rest ih =>
      obtain ⟨hnext, hrest⟩ := List.pairwise_cons.mp hsorted
      rw [locate]
      split
      · next hle =>
          rw [ih (line + 1) hrest, List.countP_cons_of_pos (by simpa using hle)]
          omega
      · next hgt =>
          have hnone : (next :: rest).countP (· ≤ offset) = 0 := by
            rw [List.countP_eq_zero]
            intro e he
            rw [decide_eq_true_iff]
            rcases List.mem_cons.mp he with rfl | he
            · exact hgt
            · have hlt := hnext e he
              omega
          rw [hnone, Nat.add_zero]

/-- The look-up comes to the greatest entry that is not behind the offset. -/
theorem isGreatest_locate_snd
    (line : Nat)
    (hsorted : (start :: starts).Pairwise (· < ·))
    (hstart : start ≤ offset) :
    IsGreatest {e | e ∈ start :: starts ∧ e ≤ offset} (locate offset line start starts).2 := by
  induction starts generalizing line start with
  | nil =>
      refine ⟨⟨List.mem_cons_self, hstart⟩, ?_⟩
      rintro e ⟨he, _⟩
      exact (List.mem_singleton.mp he).le
  | cons next rest ih =>
      obtain ⟨hlater, hsorted⟩ := List.pairwise_cons.mp hsorted
      rw [locate]
      split
      · next hle =>
          obtain ⟨⟨hmem, hfound⟩, hgreatest⟩ := ih (line + 1) hsorted hle
          refine ⟨⟨List.mem_cons_of_mem start hmem, hfound⟩, ?_⟩
          rintro e ⟨he, hoffset⟩
          rcases List.mem_cons.mp he with rfl | he
          · exact (hlater _ hmem).le
          · exact hgreatest ⟨he, hoffset⟩
      · next hgt =>
          refine ⟨⟨List.mem_cons_self, hstart⟩, ?_⟩
          rintro e ⟨he, hoffset⟩
          rcases List.mem_cons.mp he with rfl | he
          · exact le_rfl
          · have hle : next ≤ e := by
              rcases List.mem_cons.mp he with rfl | he
              · exact le_rfl
              · exact ((List.pairwise_cons.mp hsorted).1 e he).le
            omega

end LookUp

namespace LineTable

/-- The entries of the table increase, and none lies behind the text. -/
structure Ordered (t : LineTable) : Prop where
  sorted : t.lineStarts.Pairwise (· < ·)
  le_length : ∀ e ∈ t.lineStarts, e ≤ t.length

theorem ordered_ofText (text : List Char) :
    (ofText text).Ordered := by
  constructor
  · exact List.pairwise_cons.mpr
      ⟨fun start hstart => lt_of_mem_lineStartsFrom hstart, pairwise_lineStartsFrom 0 text⟩
  · intro e he
    rcases List.mem_cons.mp he with rfl | he
    · exact Nat.zero_le _
    · obtain ⟨k, rfl, hk⟩ := mem_lineStartsFrom_iff.mp he
      have hlt : k < text.length := by
        rcases hk with hk | ⟨hk, _⟩
        · exact (List.getElem?_eq_some_iff.mp hk).1
        · exact (List.getElem?_eq_some_iff.mp hk).1
      rw [Nat.zero_add]
      exact hlt

theorem cast_clamp (t : LineTable) (o : Int) :
    (t.clamp o : Int) = max 0 (min o t.length) := by
  unfold clamp
  omega

/--
**The line table of a text.**  Its entries increase, and a line starts exactly at the start of the
text, behind each line feed and behind each carriage return that no line feed follows.  The line of
an offset is the number of entries behind zero up to it, and its character is how far it lies behind
the greatest entry up to it.
-/
theorem lineStarts_by_context (text : List Char) :
    (ofText text).lineStarts.Pairwise (· < ·) ∧
    (∀ o,
      o ∈ (ofText text).lineStarts ↔
        o = 0 ∨ text[o - 1]? = some '\n' ∨
          (text[o - 1]? = some '\r' ∧ text[o]? ≠ some '\n')) ∧
    ∀ o : Int,
      ((ofText text).clamp o : Int) = max 0 (min o text.length) ∧
      ((ofText text).positionAt o).line =
        (ofText text).lineStarts.countP (fun e => 0 < e ∧ e ≤ (ofText text).clamp o) ∧
      ∃ e,
        IsGreatest {e | e ∈ (ofText text).lineStarts ∧ e ≤ (ofText text).clamp o} e ∧
        ((ofText text).positionAt o).character = (ofText text).clamp o - e := by
  have hsorted := (ordered_ofText text).sorted
  refine ⟨hsorted, ?_, ?_⟩
  · intro o
    cases o with
    | zero =>
        simp [lineStarts]
    | succ k =>
        have hmem : k + 1 ∈ (ofText text).lineStarts ↔ EndsLine text k := by
          rw [lineStarts, ofText, List.mem_cons, mem_lineStartsFrom_iff]
          simp
        simpa [EndsLine] using hmem
  · intro o
    obtain ⟨hlater, htail⟩ := List.pairwise_cons.mp hsorted
    refine ⟨cast_clamp _ o, ?_, _, isGreatest_locate_snd 0 hsorted (Nat.zero_le _), rfl⟩
    have hcount : (ofText text).lineStarts.countP (fun e => 0 < e ∧ e ≤ (ofText text).clamp o) =
        (ofText text).laterStarts.countP (· ≤ (ofText text).clamp o) := by
      rw [lineStarts, List.countP_cons_of_neg (by simp)]
      apply List.countP_congr
      intro e he
      simp [hlater e he]
    rw [hcount, positionAt, locate_fst 0 htail, Nat.zero_add]

end LineTable

end NuspecLint
