import NuspecLint.Proofs.Text.Newline
import NuspecLint.Text.Case

/-!
# Lower case and line ends

Lowering the letters of a text and unifying its line ends do not get in each other's way: the
characters of line ends are lowered to themselves, nothing else is lowered to them, and a word ends
before all of them alike.

**Results.**
* `oneLine_lowerChar`: no character but those of line ends is lowered to one of them.
* `lower_normalizeNewlines`: the two can be done in either order.
-/

namespace NuspecLint
namespace Text

section Characters

variable {c : Char}

theorem ofNat_ne_return_and_ne_feed
    {n : Nat}
    (h : 13 < n) :
    Char.ofNat n ≠ '\r' ∧ Char.ofNat n ≠ '\n' := by
  have hcode : (Char.ofNat n).toNat = n ∨ (Char.ofNat n).toNat = 0 := by
    by_cases hvalid : n.isValidChar
    · rw [Char.ofNat, dif_pos hvalid]
      exact Or.inl rfl
    · rw [Char.ofNat, dif_neg hvalid]
      exact Or.inr rfl
  constructor
  · intro heq
    have hreturn : (Char.ofNat n).toNat = 13 := congrArg Char.toNat heq
    omega
  · intro heq
    have hfeed : (Char.ofNat n).toNat = 10 := congrArg Char.toNat heq
    omega

/-- A table that only leads beyond the control characters leads to no line end. -/
theorem oneLine_mapCase
    {expansions : List (Nat × List Nat)} {runs : List CaseRun}
    (hexpansions : ∀ e ∈ expansions, e.2 ≠ [] ∧ ∀ n ∈ e.2, 13 < n)
    (hruns : ∀ r ∈ runs, 13 < (r.first : Int) + r.shift)
    (hc : c ≠ '\r' ∧ c ≠ '\n') :
    OneLine (mapCase expansions runs c) ∧ mapCase expansions runs c ≠ [] := by
  unfold mapCase
  cases hlookup : expansions.lookup c.toNat with
  | some codes =>
      obtain ⟨before, after, heq, _⟩ := List.lookup_eq_some_iff.mp hlookup
      obtain ⟨hne, hcodes⟩ := hexpansions (c.toNat, codes) (by simp [heq])
      refine ⟨?_, by simpa using hne⟩
      intro d hd
      obtain ⟨n, hn, rfl⟩ := List.mem_map.mp hd
      exact ofNat_ne_return_and_ne_feed (hcodes n hn)
  | none =>
      cases hfind : runs.find? (·.covers c.toNat) with
      | some run =>
          have hfirst := hruns run (List.mem_of_find?_eq_some hfind)
          have hcovers := List.find?_some hfind
          simp only [CaseRun.covers, Bool.and_eq_true, decide_eq_true_eq] at hcovers
          have htarget : 13 < run.target c.toNat := by
            unfold CaseRun.target
            omega
          simpa [OneLine] using ofNat_ne_return_and_ne_feed htarget
      | none =>
          simpa [OneLine] using hc

theorem oneLine_lowerChar
    (hc : c ≠ '\r' ∧ c ≠ '\n') :
    OneLine (lowerChar c) ∧ lowerChar c ≠ [] := by
  unfold lowerChar
  split
  · next hascii =>
      have htable : ∀ n < 0x80, Char.ofNat n ≠ '\r' ∧ Char.ofNat n ≠ '\n' →
          (Char.ofNat n).toLower ≠ '\r' ∧ (Char.ofNat n).toLower ≠ '\n' := by
        decide
      have hlower := htable c.toNat hascii
      rw [Char.ofNat_toNat] at hlower
      simpa [OneLine] using hlower hc
  · exact oneLine_mapCase (by decide) (by decide +kernel) hc

end Characters

section Context

variable {before before' s : List Char} {c : Char}

/-- The lower-case form of a character between others. -/
def lowerIn (before : List Char) (c : Char) (s : List Char) : List Char :=
  if c = capitalSigma && startsCased before && !startsCased s then [finalSigma] else lowerChar c

theorem lowerAfter_cons (before : List Char) (c : Char) (s : List Char) :
    lowerAfter before (c :: s) = lowerIn before c s ++ lowerAfter (c :: before) s := by
  rfl

theorem oneLine_lowerIn
    (hc : c ≠ '\r' ∧ c ≠ '\n') :
    OneLine (lowerIn before c s) ∧ lowerIn before c s ≠ [] := by
  unfold lowerIn
  split
  · simp [OneLine, finalSigma]
  · exact oneLine_lowerChar hc

theorem lowerIn_return :
    lowerIn before '\r' s = ['\r'] := by
  rfl

theorem lowerIn_feed :
    lowerIn before '\n' s = ['\n'] := by
  rfl

theorem startsCased_cons (c : Char) (s : List Char) :
    startsCased (c :: s) = if isCaseIgnorable c then startsCased s else isCased c := by
  unfold startsCased
  rw [List.dropWhile_cons]
  cases isCaseIgnorable c with
  | true =>
      rfl
  | false =>
      rfl

theorem startsCased_return :
    startsCased ('\r' :: s) = false := by
  rw [startsCased_cons, if_neg (by decide +kernel)]
  decide +kernel

theorem startsCased_feed :
    startsCased ('\n' :: s) = false := by
  rw [startsCased_cons, if_neg (by decide +kernel)]
  decide +kernel

theorem startsCased_lineFeed
    (h : startsCased before' = startsCased before) :
    startsCased (lineFeed c :: before') = startsCased (c :: before) := by
  by_cases hc : c = '\r'
  · subst hc
    rw [startsCased_return]
    exact startsCased_feed
  · rw [lineFeed_of_ne hc, startsCased_cons, startsCased_cons, h]

/-- A word ends before every line end alike. -/
theorem startsCased_normalizeNewlines (s : List Char) :
    startsCased (normalizeNewlines s) = startsCased s := by
  induction s using newline_induction with
  | nil =>
      simp
  | crlf s ih =>
      rw [normalizeNewlines_crlf, startsCased_feed, startsCased_return]
  | cons c s hclean ih =>
      rw [normalizeNewlines_cons hclean, startsCased_lineFeed ih]

theorem lowerIn_lineFeed
    (h : startsCased before' = startsCased before) :
    lowerIn before' (lineFeed c) (normalizeNewlines s) =
      normalizeNewlines (lowerIn before c s) := by
  by_cases hc : c = '\r' ∨ c = '\n'
  · rcases hc with rfl | rfl
    · rfl
    · rfl
  · rw [not_or] at hc
    rw [normalizeNewlines_of_oneLine (oneLine_lowerIn hc).1, lineFeed_of_ne hc.1]
    unfold lowerIn
    rw [h, startsCased_normalizeNewlines]

theorem head?_lowerAfter
    (h : s.head? ≠ some '\n') :
    (lowerAfter before s).head? ≠ some '\n' := by
  cases s with
  | nil =>
      simp [lowerAfter]
  | cons c s =>
      have hfeed : c ≠ '\n' := by
        rintro rfl
        exact h rfl
      rw [lowerAfter_cons]
      by_cases hreturn : c = '\r'
      · subst hreturn
        simp [lowerIn_return]
      · obtain ⟨hline, hne⟩ := @oneLine_lowerIn before s c ⟨hreturn, hfeed⟩
        obtain ⟨d, t, hd⟩ := List.exists_cons_of_ne_nil hne
        have hhead := (hline d (by simp [hd])).2
        simpa [hd] using hhead

theorem cleanCut_lowerIn
    (h : CleanCut [c] s) :
    CleanCut (lowerIn before c s) (lowerAfter (c :: before) s) := by
  by_cases hc : c = '\r' ∨ c = '\n'
  · rcases hc with rfl | rfl
    · exact fun _ => head?_lowerAfter (h rfl)
    · exact cleanCut_singleton (by decide)
  · rw [not_or] at hc
    exact (oneLine_lowerIn hc).1.cleanCut

theorem lowerAfter_normalizeNewlines
    (h : startsCased before' = startsCased before) :
    lowerAfter before' (normalizeNewlines s) = normalizeNewlines (lowerAfter before s) := by
  induction s using newline_induction generalizing before before' with
  | nil =>
      simp [lowerAfter]
  | crlf s ih =>
      rw [normalizeNewlines_crlf, lowerAfter_cons, lowerAfter_cons, lowerAfter_cons]
      rw [lowerIn_feed, lowerIn_return, lowerIn_feed]
      simp only [List.singleton_append, normalizeNewlines_crlf, List.cons.injEq, true_and]
      apply ih
      rw [startsCased_feed, startsCased_feed]
  | cons c s hclean ih =>
      rw [normalizeNewlines_cons hclean, lowerAfter_cons, lowerAfter_cons,
        normalizeNewlines_append (cleanCut_lowerIn hclean), lowerIn_lineFeed h,
        ih (startsCased_lineFeed h)]

/-- Letters can be lowered before or after line ends are unified. -/
theorem lower_normalizeNewlines (s : List Char) :
    lower (normalizeNewlines s) = normalizeNewlines (lower s) :=
  lowerAfter_normalizeNewlines rfl

end Context

end Text
end NuspecLint
