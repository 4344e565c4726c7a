/-!
# Searching in texts

The first place at which one text occurs in another.

**Results.**
* `eq_append_of_splitAt?`: a found place cuts the text into what stands before the occurrence,
  the occurrence and what follows it.
-/

namespace NuspecLint
namespace Text

/--
Cut a text at the first occurrence of `t`: what stands before it and what follows it.
-/
def splitAt? (t : List Char) : List Char → Option (List Char × List Char)
  | [] =>
      if t.isEmpty then some ([], []) else none
  | c :: s =>
      if t.isPrefixOf (c :: s) then some ([], (c :: s).drop t.length)
      else (splitAt? t s).map fun cut => (c :: cut.1, cut.2)

/-- The text `t` occurs in `s`. -/
def occursIn (t s : List Char) : Bool :=
  (splitAt? t s).isSome

/-- A found place cuts the text in three. -/
theorem eq_append_of_splitAt?
    {t s before after : List Char}
    (h : splitAt? t s = some (before, after)) :
    s = before ++ t ++ after := by
  induction s generalizing before after with
  | nil =>
      simp only [splitAt?] at h
      split at h
      · next ht =>
          simp only [List.isEmpty_iff] at ht
          simp_all
      · simp at h
  | cons c s ih =>
      simp only [splitAt?] at h
      split at h
      · next ht =>
          obtain ⟨rest, hrest⟩ := List.isPrefixOf_iff_prefix.mp ht
          simp only [Option.some.injEq, Prod.mk.injEq] at h
          obtain ⟨rfl, rfl⟩ := h
          rw [← hrest]
          simp
      · obtain ⟨cut, hcut, heq⟩ :=
          Option.map_eq_some_iff.mp h
        simp only [Prod.mk.injEq] at heq
        obtain ⟨rfl, rfl⟩ := heq
        simpa using ih hcut

end Text
end NuspecLint
