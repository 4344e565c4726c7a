import NuspecLint.Text.Newline
import NuspecLint.Text.Search
import Mathlib.Data.List.TakeWhile
import Mathlib.Tactic

/-!
# Texts with unified line ends

Turning every line end into a line feed, seen from the functions that cut texts.

**Condition.**  A cut is clean if it does not separate a carriage return from the line feed after
it.

**Results.**
* `normalizeNewlines_append`: the two sides of a clean cut can be treated apart.
* `takeWhile_normalizeNewlines`, `dropWhile_normalizeNewlines` and `splitAt?_normalizeNewlines`:
  runs and occurrences that do not tell the two line ends apart are found in the same places.
-/

namespace NuspecLint
namespace Text

/-- The cut between two texts does not separate a carriage return from its line feed. -/
def CleanCut (u v : List Char) : Prop :=
  u.getLast? = some '\r' → v.head? ≠ some '\n'

/-- The text has no character of a line end. -/
def OneLine (s : List Char) : Prop :=
  ∀ c ∈ s, c ≠ '\r' ∧ c ≠ '\n'

/-- A carriage return as the line feed that stands for it. -/
def lineFeed (c : Char) : Char :=
  if c = '\r' then '\n' else c

section CleanCut

variable {u v w : List Char}

theorem cleanCut_nil :
    CleanCut [] v := by
  simp [CleanCut]

theorem cleanCut_singleton
    {c : Char}
    (h : c ≠ '\r') :
    CleanCut [c] v := by
  simp [CleanCut, h]

theorem CleanCut.of_append
    (h : CleanCut u (v ++ w)) :
    CleanCut u v := by
  intro hu hv
  apply h hu
  cases v with
  | nil =>
      simp at hv
  | cons c v =>
      simpa using hv

theorem CleanCut.append
    (hu : CleanCut u (v ++ w))
    (hv : CleanCut v w) :
    CleanCut (u ++ v) w := by
  intro hlast
  rcases List.eq_nil_or_concat v with rfl | ⟨v, c, rfl⟩
  · rw [List.append_nil] at hlast
    exact hu hlast
  · apply hv
    simpa using hlast

theorem CleanCut.append_left
    (hv : v ≠ [])
    (h : CleanCut v w) :
    CleanCut (u ++ v) w := by
  intro hlast
  rw [List.getLast?_append_of_ne_nil u hv] at hlast
  exact h hlast

theorem CleanCut.of_append_left
    (h : CleanCut (u ++ v) w) :
    CleanCut v w := by
  intro hlast
  apply h
  rw [List.getLast?_append, hlast]
  rfl

theorem CleanCut.tail
    {c : Char}
    (h : CleanCut (c :: u) v) :
    CleanCut u v :=
  CleanCut.of_append_left (u := [c]) h

theorem CleanCut.append_right
    (huv : CleanCut u v)
    (h : CleanCut (u ++ v) w) :
    CleanCut u (v ++ w) := by
  cases v with
  | nil =>
      rwa [List.append_nil] at h
  | cons c v =>
      simpa [CleanCut] using huv

end CleanCut

theorem lineFeed_ne_return (c : Char) :
    lineFeed c ≠ '\r' := by
  unfold lineFeed
  split
  · decide
  · assumption

theorem lineFeed_of_ne
    {c : Char}
    (h : c ≠ '\r') :
    lineFeed c = c :=
  if_neg h

section Normalize

variable {s u v : List Char}

@[simp] theorem normalizeNewlines_nil :
    normalizeNewlines [] = [] := by
  simp [normalizeNewlines]

@[simp] theorem normalizeNewlines_crlf (s : List Char) :
    normalizeNewlines ('\r' :: '\n' :: s) = '\n' :: normalizeNewlines s := by
  simp [normalizeNewlines]

theorem normalizeNewlines_cons
    {c : Char}
    (h : CleanCut [c] s) :
    normalizeNewlines (c :: s) = lineFeed c :: normalizeNewlines s := by
  rw [normalizeNewlines]
  · rfl
  · rintro t rfl rfl
    exact h rfl rfl

theorem normalizeNewlines_cons_of_ne
    {c : Char}
    (h : c ≠ '\r') :
    normalizeNewlines (c :: s) = c :: normalizeNewlines s := by
  rw [normalizeNewlines_cons (cleanCut_singleton h), lineFeed_of_ne h]

/-- Induction along the line ends of a text. -/
@[elab_as_elim]
theorem newline_induction
    {motive : List Char → Prop}
    (nil : motive [])
    (crlf : ∀ s, motive s → motive ('\r' :: '\n' :: s))
    (cons : ∀ c s, CleanCut [c] s → motive s → motive (c :: s))
    (s : List Char) :
    motive s := by
  fun_induction normalizeNewlines s with
  | case1 =>
      exact nil
  | case2 s ih =>
      exact crlf s ih
  | case3 c s hclean ih =>
      refine cons c s ?_ ih
      intro hc hs
      cases s with
      | nil =>
          simp at hs
      | cons d s =>
          simp only [List.getLast?_singleton, List.head?_cons, Option.some.injEq] at hc hs
          exact hclean s hc (by rw [hs])

@[elab_as_elim]
theorem newline_cases
    {motive : List Char → Prop}
    (nil : motive [])
    (crlf : ∀ s, motive ('\r' :: '\n' :: s))
    (cons : ∀ c s, CleanCut [c] s → motive (c :: s))
    (s : List Char) :
    motive s :=
  newline_induction nil (fun s _ => crlf s) (fun c s hclean _ => cons c s hclean) s

theorem not_return_mem_normalizeNewlines (s : List Char) :
    '\r' ∉ normalizeNewlines s := by
  induction s using newline_induction with
  | nil =>
      simp
  | crlf s ih =>
      simp [ih]
  | cons c s hclean ih =>
      rw [normalizeNewlines_cons hclean, List.mem_cons, not_or]
      exact ⟨(lineFeed_ne_return c).symm, ih⟩

theorem cleanCut_normalizeNewlines (s v : List Char) :
    CleanCut (normalizeNewlines s) v := by
  intro hlast
  exact absurd (List.mem_of_getLast? hlast) (not_return_mem_normalizeNewlines s)

theorem normalizeNewlines_eq_nil_iff :
    normalizeNewlines s = [] ↔ s = [] := by
  cases s using newline_cases with
  | nil =>
      simp
  | crlf s =>
      simp
  | cons c s hclean =>
      simp [normalizeNewlines_cons hclean]

/-- The two sides of a clean cut can be treated apart. -/
theorem normalizeNewlines_append
    (h : CleanCut u v) :
    normalizeNewlines (u ++ v) = normalizeNewlines u ++ normalizeNewlines v := by
  induction u using newline_induction with
  | nil =>
      simp
  | crlf u ih =>
      simp [ih h.tail.tail]
  | cons c u hclean ih =>
      rw [List.cons_append, normalizeNewlines_cons (hclean.append_right h),
        normalizeNewlines_cons hclean, ih h.tail, List.cons_append]

theorem normalizeNewlines_of_oneLine
    (h : OneLine s) :
    normalizeNewlines s = s := by
  induction s with
  | nil =>
      simp
  | cons c s ih =>
      rw [normalizeNewlines_cons_of_ne (h c (by simp)).1, ih (fun d hd => h d (by simp [hd]))]

theorem OneLine.cleanCut
    (h : OneLine u) :
    CleanCut u v := by
  intro hlast
  exact absurd rfl (h '\r' (List.mem_of_getLast? hlast)).1

theorem normalizeNewlines_append_of_oneLine
    (h : OneLine u) :
    normalizeNewlines (u ++ v) = u ++ normalizeNewlines v := by
  rw [normalizeNewlines_append h.cleanCut, normalizeNewlines_of_oneLine h]

end Normalize

section Runs

variable {p : Char → Bool}

theorem apply_lineFeed
    {c : Char}
    (hp : p '\r' = p '\n') :
    p (lineFeed c) = p c := by
  unfold lineFeed
  split
  · next hc =>
      rw [hc, hp]
  · rfl

theorem takeWhile_normalizeNewlines
    (hp : p '\r' = p '\n')
    (s : List Char) :
    (normalizeNewlines s).takeWhile p = normalizeNewlines (s.takeWhile p) := by
  induction s using newline_induction with
  | nil =>
      simp
  | crlf s ih =>
      cases hfeed : p '\n' with
      | true =>
          simp [hp, hfeed, ih]
      | false =>
          simp [hp, hfeed]
  | cons c s hclean ih =>
      rw [normalizeNewlines_cons hclean, List.takeWhile_cons, List.takeWhile_cons,
        apply_lineFeed hp]
      cases p c with
      | true =>
          have hcut : CleanCut [c] (s.takeWhile p) := by
            rw [← List.takeWhile_append_dropWhile (p := p) (l := s)] at hclean
            exact hclean.of_append
          simp [normalizeNewlines_cons hcut, ih]
      | false =>
          simp

theorem dropWhile_normalizeNewlines
    (hp : p '\r' = p '\n')
    (s : List Char) :
    (normalizeNewlines s).dropWhile p = normalizeNewlines (s.dropWhile p) := by
  induction s using newline_induction with
  | nil =>
      simp
  | crlf s ih =>
      cases hfeed : p '\n' with
      | true =>
          simp [hp, hfeed, ih]
      | false =>
          simp [hp, hfeed]
  | cons c s hclean ih =>
      rw [normalizeNewlines_cons hclean, List.dropWhile_cons, List.dropWhile_cons,
        apply_lineFeed hp]
      cases p c with
      | true =>
          simp [ih]
      | false =>
          simp [normalizeNewlines_cons hclean]

end Runs

section Occurrences

variable {t : List Char}

theorem prefix_normalizeNewlines_iff
    (ht : OneLine t)
    (s : List Char) :
    t <+: normalizeNewlines s ↔ t <+: s := by
  induction t generalizing s with
  | nil =>
      simp
  | cons a t ih =>
      obtain ⟨hreturn, hfeed⟩ := ht a (by simp)
      have htail : OneLine t := fun c hc => ht c (by simp [hc])
      cases s using newline_cases with
      | nil =>
          simp
      | crlf s =>
          simp [List.cons_prefix_cons, hreturn, hfeed]
      | cons c s hclean =>
          rw [normalizeNewlines_cons hclean, List.cons_prefix_cons, List.cons_prefix_cons,
            ih htail]
          unfold lineFeed
          split
          · next hc =>
              simp [hc, hreturn, hfeed]
          · rfl

theorem drop_normalizeNewlines
    (ht : OneLine t)
    {s : List Char}
    (h : t <+: s) :
    (normalizeNewlines s).drop t.length = normalizeNewlines (s.drop t.length) := by
  obtain ⟨v, rfl⟩ := h
  rw [normalizeNewlines_append_of_oneLine ht, List.drop_left, List.drop_left]

/-- A text on one line occurs in the same places. -/
theorem splitAt?_normalizeNewlines
    (ht : OneLine t)
    (hne : t ≠ [])
    (s : List Char) :
    splitAt? t (normalizeNewlines s) =
      (splitAt? t s).map fun cut => (normalizeNewlines cut.1, normalizeNewlines cut.2) := by
  induction s using newline_induction with
  | nil =>
      simp [splitAt?, List.isEmpty_iff, hne]
  | crlf s ih =>
      have hnot : ∀ c ∈ ['\r', '\n'], ∀ u, ¬ t.isPrefixOf (c :: u) = true := by
        intro c hc u hpre
        obtain ⟨a, t, rfl⟩ := List.exists_cons_of_ne_nil hne
        have ha := ht a (by simp)
        simp only [List.isPrefixOf, Bool.and_eq_true, beq_iff_eq] at hpre
        simp only [List.mem_cons, List.not_mem_nil, or_false] at hc
        rw [hpre.1] at ha
        tauto
      simp only [normalizeNewlines_crlf, splitAt?, hnot '\r' (by simp), hnot '\n' (by simp),
        Bool.false_eq_true, if_false, ih, Option.map_map]
      rfl
  | cons c s hclean ih =>
      have hpre : t.isPrefixOf (normalizeNewlines (c :: s)) = t.isPrefixOf (c :: s) := by
        rw [Bool.eq_iff_iff, List.isPrefixOf_iff_prefix, List.isPrefixOf_iff_prefix,
          prefix_normalizeNewlines_iff ht]
      rw [normalizeNewlines_cons hclean, splitAt?, splitAt?, ← normalizeNewlines_cons hclean, hpre]
      split
      · next hfound =>
          rw [drop_normalizeNewlines ht (List.isPrefixOf_iff_prefix.mp hfound)]
          simp
      · rw [ih]
        cases hcut : splitAt? t s with
        | none =>
            rfl
        | some cut =>
            have hs := eq_append_of_splitAt? hcut
            rw [List.append_assoc] at hs
            rw [hs] at hclean
            simp [normalizeNewlines_cons hclean.of_append]

end Occurrences

end Text
end NuspecLint
